import FlatStore.Disk

/-! # Calls on a disk

    What a call on the disk can do is said once for each call: what it leaves
    behind when it succeeds, and what when it fails.

    * **Frame**: a call changes what is at a few paths and the bytes of a few
      files (`Disk.Changes`), and no more.
    * **Calm disks**: where no mishap is due, a call fails only for what is at
      its path, or for the size limit; on **quiet** disks there is none.
    * **Sound disks**: every file has one name, and the next number is free.
-/

namespace FlatStore

/-! ### Runs of calls -/

namespace EStateM

variable {ε σ α β : Type}

theorem get_bind (f : σ → EStateM ε σ β) (s : σ) : ((get : EStateM ε σ σ) >>= f) s = f s s := rfl

theorem modify_bind (g : σ → σ) (f : PUnit → EStateM ε σ β) (s : σ) :
    ((modify g : EStateM ε σ PUnit) >>= f) s = f ⟨⟩ (g s) := rfl

theorem bind_of_ok {x : EStateM ε σ α} {f : α → EStateM ε σ β} {s s' : σ} {a : α}
    (h : x s = .ok a s') : (x >>= f) s = f a s' := by
  show EStateM.bind x f s = f a s'
  unfold EStateM.bind
  rw [h]

theorem bind_of_error {x : EStateM ε σ α} {f : α → EStateM ε σ β} {s s' : σ} {e : ε}
    (h : x s = .error e s') : (x >>= f) s = .error e s' := by
  show EStateM.bind x f s = .error e s'
  unfold EStateM.bind
  rw [h]

end EStateM

/-! ### Outcomes -/

/-- A call that succeeds ends well, and one that fails ends as a failure may. -/
def Meets {ε σ α : Type} (good : α → σ → Prop) (bad : ε → σ → Prop) :
    EStateM.Result ε σ α → Prop
  | .ok a s => good a s
  | .error e s => bad e s

/-- Whether a call ends so can be found out by running it. -/
instance {ε σ α : Type} {good : α → σ → Prop} {bad : ε → σ → Prop} [∀ a s, Decidable (good a s)]
    [∀ e s, Decidable (bad e s)] (call : EStateM ε σ α) (s : σ) :
    Decidable (Meets good bad (call s)) :=
  match call s with
  | .ok a s => inferInstanceAs (Decidable (good a s))
  | .error e s => inferInstanceAs (Decidable (bad e s))

namespace Meets

variable {ε σ α β : Type} {good : α → σ → Prop} {bad : ε → σ → Prop}

theorem mono {good' : α → σ → Prop} {bad' : ε → σ → Prop} {r : EStateM.Result ε σ α}
    (h : Meets good bad r) (hg : ∀ a s, good a s → good' a s) (hb : ∀ e s, bad e s → bad' e s) :
    Meets good' bad' r := by
  cases r with
  | ok a s => exact hg a s h
  | error e s => exact hb e s h

/-- A call behind another one starts where the first has ended well. -/
theorem andThen {good' : β → σ → Prop} {bad' : ε → σ → Prop} {x : EStateM ε σ α}
    {f : α → EStateM ε σ β} {s : σ} (h : Meets good bad (x s))
    (hg : ∀ a s', good a s' → Meets good' bad' (f a s')) (hb : ∀ e s', bad e s' → bad' e s') :
    Meets good' bad' ((x >>= f) s) := by
  cases run : x s with
  | ok a s' =>
    rw [run] at h
    rw [EStateM.bind_of_ok run]
    exact hg a s' h
  | error e s' =>
    rw [run] at h
    rw [EStateM.bind_of_error run]
    exact hb e s' h

theorem of_ok {r : EStateM.Result ε σ α} {a : α} {s : σ} (h : Meets good bad r)
    (run : r = .ok a s) : good a s := by
  subst run
  exact h

theorem of_error {r : EStateM.Result ε σ α} {e : ε} {s : σ} (h : Meets good bad r)
    (run : r = .error e s) : bad e s := by
  subst run
  exact h

/-- A call that cannot fail succeeds. -/
theorem exists_ok {r : EStateM.Result ε σ α} (h : Meets good (fun _ _ => False) r) :
    ∃ a s, r = .ok a s ∧ good a s := by
  cases r with
  | ok a s => exact ⟨a, s, rfl, h⟩
  | error e s => exact h.elim

/-- A call that cannot succeed fails. -/
theorem exists_error {r : EStateM.Result ε σ α} (h : Meets (fun _ _ => False) bad r) :
    ∃ e s, r = .error e s ∧ bad e s := by
  cases r with
  | ok a s => exact h.elim
  | error e s => exact ⟨e, s, rfl, h⟩

end Meets

namespace Disk

/-! ### Frames -/

/-- No mishap is due. -/
def Calm (d : Disk) : Prop := d.mishaps = []

/-- No mishap is due and no size limit is set. -/
def Quiet (d : Disk) : Prop := d.Calm ∧ d.sizeLimit = none

/-- Only what is at paths in `P` and the bytes of files in `N` may have changed. -/
structure Changes (P : Path → Prop) (N : FileNumber → Prop) (d d' : Disk) : Prop where
  lookup : ∀ path, ¬ P path → d'.lookup path = d.lookup path
  content : ∀ number, ¬ N number → d'.content number = d.content number
  fresh : d.fresh ≤ d'.fresh
  workingDirectory : d'.workingDirectory = d.workingDirectory
  sizeLimit : d'.sizeLimit = d.sizeLimit
  calm : d.Calm → d'.Calm

/-- Nothing has changed but the mishaps to come. -/
abbrev Same : Disk → Disk → Prop := Changes (fun _ => False) fun _ => False

namespace Changes

variable {P Q : Path → Prop} {N M : FileNumber → Prop} {d d' d'' : Disk}

theorem refl (P : Path → Prop) (N : FileNumber → Prop) (d : Disk) : Changes P N d d :=
  ⟨fun _ _ => rfl, fun _ _ => rfl, Nat.le_refl _, rfl, rfl, fun h => h⟩

theorem quiet (h : Changes P N d d') (hq : d.Quiet) : d'.Quiet :=
  ⟨h.calm hq.1, by rw [h.sizeLimit, hq.2]⟩

theorem trans (h : Changes P N d d') (h' : Changes P N d' d'') : Changes P N d d'' where
  lookup path hp := (h'.lookup path hp).trans (h.lookup path hp)
  content number hn := (h'.content number hn).trans (h.content number hn)
  fresh := Nat.le_trans h.fresh h'.fresh
  workingDirectory := h'.workingDirectory.trans h.workingDirectory
  sizeLimit := h'.sizeLimit.trans h.sizeLimit
  calm hc := h'.calm (h.calm hc)

theorem mono (h : Changes P N d d') (hP : ∀ path, P path → Q path)
    (hN : ∀ number, N number → M number) : Changes Q M d d' where
  lookup path hp := h.lookup path fun hp' => hp (hP path hp')
  content number hn := h.content number fun hn' => hn (hN number hn')
  fresh := h.fresh
  workingDirectory := h.workingDirectory
  sizeLimit := h.sizeLimit
  calm := h.calm

theorem of_same (h : Same d d') : Changes P N d d' :=
  h.mono (fun _ => False.elim) fun _ => False.elim

end Changes

namespace Same

variable {d d' : Disk}

theorem lookup_eq (h : Same d d') (path : Path) : d'.lookup path = d.lookup path :=
  h.lookup path id

theorem content_eq (h : Same d d') (number : FileNumber) : d'.content number = d.content number :=
  h.content number id

theorem file?_eq (h : Same d d') (path : Path) : d'.file? path = d.file? path := by
  unfold file?
  rw [h.lookup_eq]
  split
  · rw [h.content_eq]
  · rfl

end Same

/-! ### Changes without fail -/

theorem lookup_setEntry (d : Disk) {path : Path} (h : path ≠ []) (entry : DiskEntry) (p : Path) :
    (d.setEntry path entry).lookup p = if p = path then some entry else d.lookup p := by
  cases p with
  | nil => rw [if_neg fun he => h he.symm]; rfl
  | cons name names =>
    show (d.entries.insert path entry)[name :: names]? = _
    rw [Std.TreeMap.getElem?_insert]
    by_cases same : name :: names = path
    · subst same
      simp
    · rw [if_neg same, if_neg fun he => same (Std.LawfulEqCmp.eq_of_compare he).symm]
      rfl

theorem lookup_remove (d : Disk) (path : Path) {p : Path} (h : p ≠ []) :
    (d.remove path).lookup p = if p = path then none else d.lookup p := by
  cases p with
  | nil => exact absurd rfl h
  | cons name names =>
    show (d.entries.erase path)[name :: names]? = _
    rw [Std.TreeMap.getElem?_erase]
    by_cases same : name :: names = path
    · subst same
      simp
    · rw [if_neg same, if_neg fun he => same (Std.LawfulEqCmp.eq_of_compare he).symm]
      rfl

theorem content_setContent_of_ne (d : Disk) {number n : FileNumber} (h : n ≠ number)
    (bytes : Bytes) : (d.setContent number bytes).content n = d.content n := by
  have other : ¬ compare number n = .eq := fun he => h (Std.LawfulEqCmp.eq_of_compare he).symm
  simp [content, setContent, Std.TreeMap.getD_insert, other]

theorem content_extendContent_of_ne (d : Disk) {number n : FileNumber} (h : n ≠ number)
    (bytes : Bytes) : (d.extendContent number bytes).content n = d.content n := by
  have other : ¬ compare number n = .eq := fun he => h (Std.LawfulEqCmp.eq_of_compare he).symm
  simp [content, extendContent, Std.TreeMap.getD_insert, other]

/-! ### Single calls -/

variable {d : Disk} {path : Path} {number : FileNumber}

theorem same_proceed (d : Disk) (rest : List (Option Nat)) (h : d.mishaps = [] → rest = []) :
    Same d { d with mishaps := rest } where
  lookup _ _ := rfl
  content _ _ := rfl
  fresh := Nat.le_refl _
  workingDirectory := rfl
  sizeLimit := rfl
  calm := h

theorem meets_proceed (d : Disk) :
    Meets (fun _ d' => Same d d') (fun _ d' => Same d d' ∧ ¬ d.Calm) (proceed d) := by
  unfold proceed
  cases due : d.mishaps with
  | nil => exact .refl _ _ d
  | cons next rest =>
    have same := same_proceed d rest (by simp [due])
    cases next with
    | none => exact same
    | some cut =>
      refine ⟨same, fun calm : d.mishaps = [] => ?_⟩
      rw [calm] at due
      cases due

theorem meets_openExisting (h : d.lookup path = some (.file number)) :
    Meets (fun n d' => n = number ∧ Same d d') (fun _ d' => Same d d' ∧ ¬ d.Calm)
      (openExisting path d) := by
  unfold openExisting
  refine (meets_proceed d).andThen ?_ ?_
  · intro _ d' same
    rw [EStateM.get_bind, same.lookup_eq, h]
    exact ⟨rfl, same⟩
  · intro _ _ failed
    exact failed

theorem meets_readFile (d : Disk) (path : Path) :
    Meets (fun found d' => found = d.file? path ∧ d.lookup path ≠ some .directory ∧ Same d d')
      (fun _ d' => Same d d' ∧ (¬ d.Calm ∨ d.lookup path = some .directory))
      (readFile path d) := by
  unfold readFile
  refine (meets_proceed d).andThen ?_ ?_
  · intro _ d' same
    rw [EStateM.get_bind, same.lookup_eq]
    unfold file?
    cases at_path : d.lookup path with
    | none => exact ⟨rfl, by simp, same⟩
    | some entry =>
      cases entry with
      | directory => exact ⟨same, Or.inr rfl⟩
      | file number => exact ⟨congrArg some (same.content_eq number), by simp, same⟩
  · intro _ _ failed
    exact ⟨failed.1, .inl failed.2⟩

theorem changes_setContent (d : Disk) (number : FileNumber) (bytes : Bytes) :
    Changes (fun _ => False) (· = number) d (d.setContent number bytes) where
  lookup _ _ := rfl
  content _ h := content_setContent_of_ne d h bytes
  fresh := Nat.le_refl _
  workingDirectory := rfl
  sizeLimit := rfl
  calm h := h

/-- Cutting a file to a length that it has. -/
theorem meets_setLength {length : Nat} (h : length ≤ (d.content number).size) :
    Meets (fun _ d' => Changes (fun _ => False) (· = number) d d' ∧
        d'.content number = (d.content number).extract 0 length)
      (fun _ d' => Same d d' ∧ ¬ d.Calm) (setLength number length d) := by
  unfold setLength
  refine (meets_proceed d).andThen ?_ ?_
  · intro _ d' same
    rw [EStateM.get_bind]
    simp only [same.content_eq, h, if_true]
    exact ⟨(Changes.of_same same).trans (changes_setContent d' number _),
      content_setContent d' number _⟩
  · intro _ _ failed
    exact failed

theorem changes_addFile (d : Disk) (h : path ≠ []) (bytes : Bytes) :
    Changes (· = path) (· = d.fresh) d (d.addFile path bytes) where
  lookup p hp := by
    show ((d.setContent d.fresh bytes).setEntry path (.file d.fresh)).lookup p = _
    rw [lookup_setEntry _ h, if_neg hp]
    rfl
  content n hn := content_setContent_of_ne d hn bytes
  fresh := Nat.le_succ _
  workingDirectory := rfl
  sizeLimit := rfl
  calm h := h

theorem lookup_addFile (d : Disk) (h : path ≠ []) (bytes : Bytes) :
    (d.addFile path bytes).lookup path = some (.file d.fresh) := by
  show ((d.setContent d.fresh bytes).setEntry path (.file d.fresh)).lookup path = _
  rw [lookup_setEntry _ h, if_pos rfl]

/-- The file `n` is there at a path, where it was before or is a new one. -/
structure Obtained (path : Path) (n : FileNumber) (d d' : Disk) : Prop where
  changes : Changes (· = path) (· = n) d d'
  named : d'.lookup path = some (.file n)
  origin : d.lookup path = some (.file n) ∨ d.lookup path = none ∧ d.fresh ≤ n ∧ n < d'.fresh

theorem Obtained.not_directory {n : FileNumber} (h : Obtained path n d d') :
    d.lookup path ≠ some .directory := by
  rcases h.origin with old | ⟨new, -, -⟩
  · simp [old]
  · simp [new]

/-- A file that is there is opened as it is; one that is not is made, with the next number. -/
theorem meets_openOrCreate (d : Disk) (h : path ≠ []) :
    Meets (fun n d' => Obtained path n d d' ∧
        d'.content n = (d.file? path).getD ByteArray.empty)
      (fun _ d' => Same d d' ∧ (¬ d.Calm ∨ d.lookup path = some .directory))
      (openOrCreate path d) := by
  unfold openOrCreate
  refine (meets_proceed d).andThen ?_ ?_
  · intro _ d' same
    rw [EStateM.get_bind, same.lookup_eq]
    unfold file?
    cases at_path : d.lookup path with
    | none =>
      refine ⟨⟨?_, lookup_addFile d' h _, Or.inr ⟨at_path, same.fresh, Nat.lt_succ_self _⟩⟩, ?_⟩
      · exact (Changes.of_same same).trans (changes_addFile d' h _)
      · exact content_setContent d' d'.fresh _
    | some entry =>
      cases entry with
      | directory => exact ⟨same, Or.inr rfl⟩
      | file number =>
        refine ⟨⟨.of_same same, ?_, Or.inl at_path⟩, same.content_eq number⟩
        rw [same.lookup_eq, at_path]
  · intro _ _ failed
    exact ⟨failed.1, .inl failed.2⟩

theorem meets_createEmpty (d : Disk) (h : path ≠ []) :
    Meets (fun n d' => Obtained path n d d' ∧ d'.content n = ByteArray.empty)
      (fun _ d' => Same d d' ∧ (¬ d.Calm ∨ d.lookup path = some .directory))
      (createEmpty path d) := by
  unfold createEmpty
  refine (meets_openOrCreate d h).andThen ?_ ?_
  · intro n d' opened
    obtain ⟨obtained, -⟩ := opened
    rw [EStateM.modify_bind]
    have emptied : Changes (· = path) (· = n) d' (d'.setContent n ByteArray.empty) :=
      (changes_setContent d' n _).mono (fun _ => False.elim) fun _ => id
    exact ⟨⟨obtained.changes.trans emptied, obtained.named, obtained.origin⟩,
      content_setContent d' n _⟩
  · intro _ _ failed
    exact failed

/-- Where the paths lead once a file was taken from one place and put in another. -/
theorem lookup_setEntry_remove (d : Disk) {source target : Path} (source_ne : source ≠ [])
    (target_ne : target ≠ []) (n : FileNumber) (p : Path) :
    ((d.remove source).setEntry target (.file n)).lookup p =
      if p = target then some (.file n) else if p = source then none else d.lookup p := by
  rw [lookup_setEntry _ target_ne]
  by_cases at_target : p = target
  · rw [if_pos at_target, if_pos at_target]
  · rw [if_neg at_target, if_neg at_target]
    by_cases top : p = []
    · rw [top, if_neg source_ne.symm]
      rfl
    · rw [lookup_remove d source top]

/-- A file takes the place of another one. -/
theorem meets_rename {source target : Path} {old new : FileNumber}
    (hsource : d.lookup source = some (.file new)) (htarget : d.lookup target = some (.file old))
    (ne : source ≠ target) :
    Meets (fun _ d' => Changes (fun path => path = source ∨ path = target) (fun _ => False) d d' ∧
        d'.lookup target = some (.file new) ∧ d'.lookup source = none)
      (fun _ d' => Same d d' ∧ ¬ d.Calm) (rename source target d) := by
  have source_ne : source ≠ [] := by
    rintro rfl
    cases hsource
  have target_ne : target ≠ [] := by
    rintro rfl
    cases htarget
  unfold rename
  refine (meets_proceed d).andThen ?_ ?_
  · intro _ d' same
    rw [EStateM.get_bind, same.lookup_eq, same.lookup_eq, hsource, htarget]
    show _ ∧ _ ∧ _
    have moved : ∀ p, ((d'.remove source).setEntry target (.file new)).lookup p =
        if p = target then some (.file new) else if p = source then none else d.lookup p := by
      intro p
      rw [lookup_setEntry_remove d' source_ne target_ne, same.lookup_eq]
    refine ⟨?_, ?_, ?_⟩
    · exact {
        lookup := fun p hp => by
          rw [moved, if_neg fun he => hp (Or.inr he), if_neg fun he => hp (Or.inl he)]
        content := fun n _ => same.content_eq n
        fresh := same.fresh
        workingDirectory := same.workingDirectory
        sizeLimit := same.sizeLimit
        calm := same.calm }
    · rw [moved, if_pos rfl]
    · rw [moved, if_neg ne, if_pos rfl]
  · intro _ _ failed
    exact failed

theorem changes_extendContent (d : Disk) (number : FileNumber) (bytes : Bytes) :
    Changes (fun _ => False) (· = number) d (d.extendContent number bytes) where
  lookup _ _ := rfl
  content _ h := content_extendContent_of_ne d h bytes
  fresh := Nat.le_refl _
  workingDirectory := rfl
  sizeLimit := rfl
  calm h := h

/-- A write may be cut short; what it wrote stands behind the bytes that the file had. -/
theorem append_spec (d : Disk) (number : FileNumber) (bytes : Bytes) :
    ∃ count fault d', d.append number bytes = (count, fault, d') ∧
      Changes (fun _ => False) (· = number) d d' ∧
      d'.content number = d.content number ++ bytes.extract 0 count ∧
      (fault = none → bytes.extract 0 count = bytes) ∧ (d.Quiet → fault = none) := by
  -- A write that the size limit cuts short is told as a fault.
  have whole : (if d.admitted number bytes < bytes.size then some DiskFault.fileTooLarge
      else none) = none → bytes.extract 0 (d.admitted number bytes) = bytes := by
    intro h
    by_cases short : d.admitted number bytes < bytes.size
    · rw [if_pos short] at h
      cases h
    · rw [← Nat.max_eq_left (Nat.not_lt.1 short), ByteArray.extract_zero_max_size]
  have unlimited : d.Quiet → (if d.admitted number bytes < bytes.size then
      some DiskFault.fileTooLarge else none) = none := by
    intro hq
    rw [admitted, hq.2, if_neg (Nat.lt_irrefl _)]
  have changes : ∀ count rest, (d.mishaps = [] → rest = []) →
      Changes (fun _ => False) (· = number) d
        { d.extendContent number (bytes.extract 0 count) with mishaps := rest } := by
    intro count rest h
    exact (changes_extendContent d number _).trans
      (.of_same (same_proceed (d.extendContent number (bytes.extract 0 count)) rest h))
  have content : ∀ count rest,
      ({ d.extendContent number (bytes.extract 0 count) with mishaps := rest } : Disk).content
        number = d.content number ++ bytes.extract 0 count :=
    fun count rest => content_extendContent d number (bytes.extract 0 count)
  unfold append
  -- Either no mishap is due, or the next entry lets the call go ahead, or it cuts the write.
  cases due : d.mishaps with
  | nil => exact ⟨_, _, _, rfl, changes _ _ fun _ => rfl, content _ _, whole, unlimited⟩
  | cons next rest =>
    cases next with
    | none =>
      exact ⟨_, _, _, rfl, changes _ _ (by simp [due]), content _ _, whole, unlimited⟩
    | some cut =>
      refine ⟨_, _, _, rfl, changes _ _ (by simp [due]), content _ _, by simp, ?_⟩
      intro hq
      have calm : d.mishaps = [] := hq.1
      rw [calm] at due
      cases due

/-! ### Sound disks -/

/-- Every file has one name, and the numbers from the next one on are free. -/
structure Sound (d : Disk) : Prop where
  one_name : ∀ p q n, d.lookup p = some (.file n) → d.lookup q = some (.file n) → p = q
  below : ∀ p n, d.lookup p = some (.file n) → n < d.fresh

theorem sound_empty : Sound {} := by
  have no_file : ∀ p n, ({} : Disk).lookup p ≠ some (.file n) := by
    intro p n
    cases p with
    | nil => nofun
    | cons name names => simp [lookup]
  exact ⟨fun p _ n hp => absurd hp (no_file p n), fun p n hp => absurd hp (no_file p n)⟩

theorem Sound.keep {N : FileNumber → Prop} {d' : Disk} (h : d.Sound)
    (changes : Changes (fun _ => False) N d d') : d'.Sound := by
  constructor
  · intro p q n hp hq
    rw [changes.lookup p id] at hp
    rw [changes.lookup q id] at hq
    exact h.one_name p q n hp hq
  · intro p n hp
    rw [changes.lookup p id] at hp
    exact Nat.lt_of_lt_of_le (h.below p n hp) changes.fresh

/-- One path leads to a file that no other one leads to; the others lead where they did. -/
theorem Sound.of_others {d' : Disk} (h : d.Sound) (named : d'.lookup path = some (.file number))
    (others : ∀ p n, p ≠ path → d'.lookup p = some (.file n) →
      n ≠ number ∧ d.lookup p = some (.file n))
    (below : number < d'.fresh) (fresh : d.fresh ≤ d'.fresh) : d'.Sound := by
  constructor
  · -- Two names of one file: both are the path, one of them is, or both were there before.
    intro p q n hp hq
    by_cases p_at : p = path
    · by_cases q_at : q = path
      · rw [p_at, q_at]
      · rw [p_at, named] at hp
        cases hp
        exact absurd rfl (others q number q_at hq).1
    · by_cases q_at : q = path
      · rw [q_at, named] at hq
        cases hq
        exact absurd rfl (others p number p_at hp).1
      · exact h.one_name p q n (others p n p_at hp).2 (others q n q_at hq).2
  · intro p n hp
    by_cases p_at : p = path
    · rw [p_at, named] at hp
      cases hp
      exact below
    · exact Nat.lt_of_lt_of_le (h.below p n (others p n p_at hp).2) fresh

/-- On a sound disk nothing else leads to a file that is there or is made. -/
theorem Obtained.path_eq {d' : Disk} (h : Obtained path number d d') (sound : d.Sound) {p : Path}
    (hp : d.lookup p = some (.file number)) : p = path := by
  rcases h.origin with old | ⟨-, above, -⟩
  · exact sound.one_name p path number hp old
  · exact absurd (sound.below p number hp) (Nat.not_lt.2 above)

theorem Obtained.sound {d' : Disk} (h : Obtained path number d d') (sound : d.Sound) :
    d'.Sound := by
  refine sound.of_others h.named ?_ ?_ h.changes.fresh
  · intro p n hp hn
    rw [h.changes.lookup p hp] at hn
    refine ⟨?_, hn⟩
    rintro rfl
    exact hp (h.path_eq sound hn)
  · rcases h.origin with old | ⟨-, -, below⟩
    · exact Nat.lt_of_lt_of_le (sound.below path number old) h.changes.fresh
    · exact below

/-- A file that was moved has only its new name. -/
theorem Sound.moved {N : FileNumber → Prop} {d' : Disk} {source target : Path} (h : d.Sound)
    (changes : Changes (fun p => p = source ∨ p = target) N d d')
    (was : d.lookup source = some (.file number)) (named : d'.lookup target = some (.file number))
    (gone : d'.lookup source = none) : d'.Sound := by
  refine h.of_others named ?_ (Nat.lt_of_lt_of_le (h.below source number was) changes.fresh)
    changes.fresh
  intro p n hp hn
  have apart : p ≠ source := by
    rintro rfl
    rw [gone] at hn
    cases hn
  rw [changes.lookup p (by simp [hp, apart])] at hn
  refine ⟨?_, hn⟩
  rintro rfl
  exact apart (h.one_name p source n hn was)

end Disk

end FlatStore
