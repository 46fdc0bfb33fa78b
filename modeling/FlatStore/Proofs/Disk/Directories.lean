import FlatStore.Proofs.Disk

/-! # Making directories

    Making the directories of a path only adds directories where nothing was
    (`Grown`). Once they are made they are found again, whatever else happens
    to the disk, as long as no directory goes away (`meets_makeDirectories`).
-/

namespace FlatStore

namespace Disk

variable {d : Disk} {path : Path}

/-- Directories may have been made where nothing was, and nothing else has changed. -/
structure Grown (d d' : Disk) : Prop where
  lookup : ∀ p, d'.lookup p = d.lookup p ∨ d.lookup p = none ∧ d'.lookup p = some .directory
  content : ∀ n, d'.content n = d.content n
  fresh : d.fresh ≤ d'.fresh
  workingDirectory : d'.workingDirectory = d.workingDirectory
  sizeLimit : d'.sizeLimit = d.sizeLimit
  calm : d.Calm → d'.Calm

/-- Every directory of one disk is one of the other. -/
def DirectoriesIn (d d' : Disk) : Prop :=
  ∀ p, d.lookup p = some .directory → d'.lookup p = some .directory

namespace Grown

variable {d' d'' : Disk}

theorem of_same (h : Same d d') : Grown d d' :=
  ⟨fun p => Or.inl (h.lookup_eq p), h.content_eq, h.fresh, h.workingDirectory, h.sizeLimit, h.calm⟩

theorem quiet (h : Grown d d') (hq : d.Quiet) : d'.Quiet :=
  ⟨h.calm hq.1, by rw [h.sizeLimit, hq.2]⟩

theorem trans (h : Grown d d') (h' : Grown d' d'') : Grown d d'' where
  lookup p := by
    rcases h.lookup p with same | ⟨nothing, made⟩
    · rw [← same]
      exact h'.lookup p
    · rcases h'.lookup p with same | ⟨nothing', -⟩
      · exact Or.inr ⟨nothing, by rw [same, made]⟩
      · rw [made] at nothing'
        cases nothing'
  content n := (h'.content n).trans (h.content n)
  fresh := Nat.le_trans h.fresh h'.fresh
  workingDirectory := h'.workingDirectory.trans h.workingDirectory
  sizeLimit := h'.sizeLimit.trans h.sizeLimit
  calm hc := h'.calm (h.calm hc)

theorem directoriesIn (h : Grown d d') : DirectoriesIn d d' := by
  intro p hp
  rcases h.lookup p with same | ⟨-, made⟩
  · rw [same, hp]
  · exact made

/-- There are the same files as before. -/
theorem file (h : Grown d d') {p : Path} {n : FileNumber} :
    d'.lookup p = some (.file n) ↔ d.lookup p = some (.file n) := by
  rcases h.lookup p with same | ⟨nothing, made⟩
  · rw [same]
  · simp [nothing, made]

theorem sound (h : Grown d d') (sound : d.Sound) : d'.Sound := by
  constructor
  · intro p q n hp hq
    exact sound.one_name p q n (h.file.1 hp) (h.file.1 hq)
  · intro p n hp
    exact Nat.lt_of_lt_of_le (sound.below p n (h.file.1 hp)) h.fresh

end Grown

theorem meets_makeDirectory (d : Disk) (h : path ≠ []) :
    Meets (fun _ d' => Grown d d' ∧ d'.lookup path = some .directory) (fun _ _ => True)
      (makeDirectory path d) := by
  unfold makeDirectory
  rw [EStateM.get_bind]
  cases at_path : d.lookup path with
  | none =>
    refine (meets_proceed d).andThen ?_ ?_
    · intro _ d' same
      have set : (d'.setEntry path .directory).lookup path = some .directory := by
        rw [lookup_setEntry d' h, if_pos rfl]
      -- A directory stands where nothing was, and the other paths lead where they did.
      refine ⟨(Grown.of_same same).trans ?_, set⟩
      refine ⟨?_, fun _ => rfl, Nat.le_refl _, rfl, rfl, id⟩
      intro p
      by_cases here : p = path
      · rw [here, set, same.lookup_eq]
        exact Or.inr ⟨at_path, rfl⟩
      · rw [lookup_setEntry d' h, if_neg here]
        exact Or.inl rfl
    · intro _ _ _
      trivial
  | some entry =>
    cases entry with
    | directory => exact ⟨.of_same (.refl _ _ d), at_path⟩
    | file number => trivial

theorem makeDirectory_of_directory (h : d.lookup path = some .directory) :
    makeDirectory path d = .ok () d := by
  unfold makeDirectory
  rw [EStateM.get_bind, h]
  rfl

/-- Where directories were made along some steps, the same steps go through again, and nothing is
left to make. -/
theorem meets_makeSteps (steps : List PathStep) (path : Path) (d : Disk) :
    Meets (fun place d' => Grown d d' ∧
        ∀ d'', DirectoriesIn d' d'' → makeSteps path steps d'' = .ok place d'')
      (fun _ _ => True) (makeSteps path steps d) := by
  induction steps generalizing path d with
  | nil => exact ⟨.of_same (.refl _ _ d), fun _ _ => rfl⟩
  | cons step steps ih =>
    cases step with
    | up => exact ih path.dropLast d
    | down name =>
      unfold makeSteps
      by_cases long : name.utf8ByteSize > maxNameLength
      · simp only [long, if_true]
        trivial
      · simp only [long, if_false]
        refine (meets_makeDirectory d (by simp)).andThen ?_ ?_
        · intro _ d₁ made
          obtain ⟨grown, here⟩ := made
          refine (ih (path ++ [name]) d₁).mono ?_ ?_
          · intro place d' rest
            obtain ⟨grown', again⟩ := rest
            refine ⟨grown.trans grown', ?_⟩
            intro d'' within
            -- The directory that was made is still there, so the first step goes through at once.
            have there : d''.lookup (path ++ [name]) = some .directory :=
              within _ (grown'.directoriesIn _ here)
            rw [EStateM.bind_of_ok (makeDirectory_of_directory there)]
            exact again d'' within
          · intro _ _ _
            trivial
        · intro _ _ _
          trivial

theorem follow_again {d' : Disk} (within : DirectoriesIn d d') {steps : List PathStep}
    {place : Path} (h : d.follow path steps = .ok place) : d'.follow path steps = .ok place := by
  induction steps generalizing path with
  | nil => exact h
  | cons step steps ih =>
    simp only [follow] at h ⊢
    cases at_path : d.lookup path with
    | none =>
      rw [at_path] at h
      cases h
    | some entry =>
      rw [at_path] at h
      cases entry with
      | file => cases h
      | directory =>
        -- The path so far leads to a directory, and still does.
        simp only [within _ at_path]
        cases step with
        | up => exact ih h
        | down name =>
          by_cases long : name.utf8ByteSize > maxNameLength
          · simp [long] at h
          · simp only [long, if_false] at h ⊢
            exact ih h

theorem resolve_again {d' : Disk} (within : DirectoriesIn d d')
    (start : d'.workingDirectory = d.workingDirectory) {location : WrittenPath} {place : Path}
    (h : d.resolve location = .ok place) : d'.resolve location = .ok place := by
  unfold resolve Disk.start at h ⊢
  cases fault : wordingFault? location with
  | some fault' =>
    rw [fault] at h
    cases h
  | none =>
    simp only [fault] at h ⊢
    rw [start]
    exact follow_again within h

theorem findDirectory_eq_ok {location : WrittenPath} {place : Path} {d' : Disk}
    (h : findDirectory location d = .ok place d') :
    d' = d ∧ d.resolve location = .ok place ∧ d.lookup place = some .directory := by
  unfold findDirectory at h
  cases resolved : d.resolve location with
  | error fault =>
    rw [resolved] at h
    cases h
  | ok found =>
    simp only [resolved] at h
    cases at_place : d.lookup found with
    | none =>
      rw [at_place] at h
      cases h
    | some entry =>
      rw [at_place] at h
      cases entry with
      | file => cases h
      | directory =>
        cases h
        exact ⟨rfl, rfl, at_place⟩

theorem findDirectory_again {d' : Disk} (within : DirectoriesIn d d')
    (start : d'.workingDirectory = d.workingDirectory) {location : WrittenPath} {place : Path}
    (resolved : d.resolve location = .ok place) (there : d.lookup place = some .directory) :
    findDirectory location d' = .ok place d' := by
  unfold findDirectory
  rw [resolve_again within start resolved]
  simp only [within place there]

theorem checkWording_of_none {location : WrittenPath} (h : wordingFault? location = none)
    (d : Disk) : checkWording location d = .ok () d := by
  unfold checkWording
  rw [h]
  rfl

theorem meets_checkWording (location : WrittenPath) (d : Disk) :
    Meets (fun _ d' => wordingFault? location = none ∧ d' = d)
      (fun _ d' => d' = d ∧ wordingFault? location ≠ none) (checkWording location d) := by
  unfold checkWording
  cases wordingFault? location with
  | none => exact ⟨rfl, rfl⟩
  | some fault => exact ⟨rfl, nofun⟩

theorem makeDirectories_of_none {location : WrittenPath} (h : wordingFault? location = none)
    (d : Disk) : makeDirectories location d =
      (if location.staysPut then do
        let _ ← makeSteps (d.start location) location.steps.dropLast
        findDirectory location
      else makeSteps (d.start location) location.steps) d := by
  unfold makeDirectories
  rw [EStateM.bind_of_ok (checkWording_of_none h d)]
  rfl

theorem start_eq {d d' : Disk} (h : d'.workingDirectory = d.workingDirectory)
    (location : WrittenPath) : d'.start location = d.start location := by
  unfold Disk.start
  rw [h]

/-- What making the directories of a path comes to: only directories are added, and as long as
these are there the path leads to the same place with nothing left to make. -/
def Made (location : WrittenPath) (d : Disk) (place : Path) (d' : Disk) : Prop :=
  Grown d d' ∧ ∀ d'', DirectoriesIn d' d'' → d''.workingDirectory = d.workingDirectory →
    makeDirectories location d'' = .ok place d''

/-- A path whose last name stays put is only looked up once the directories above are made. -/
theorem meets_makeDirectories_of_staysPut {location : WrittenPath}
    (worded : wordingFault? location = none) (stays : location.staysPut) (d : Disk) :
    Meets (Made location d) (fun _ _ => True) (makeDirectories location d) := by
  rw [makeDirectories_of_none worded d, if_pos stays]
  refine (meets_makeSteps location.steps.dropLast _ d).andThen ?_ fun _ _ _ => trivial
  intro _ d₁ made
  obtain ⟨grown, steps_again⟩ := made
  cases found : findDirectory location d₁ with
  | error fault d₂ => trivial
  | ok place d₂ =>
    obtain ⟨rfl, resolved, there⟩ := findDirectory_eq_ok found
    refine ⟨grown, ?_⟩
    intro d'' within start
    rw [makeDirectories_of_none worded d'', if_pos stays, start_eq start,
      EStateM.bind_of_ok (steps_again d'' within)]
    exact findDirectory_again within (start.trans grown.workingDirectory.symm) resolved there

theorem meets_makeDirectories_of_steps {location : WrittenPath}
    (worded : wordingFault? location = none) (stays : ¬ location.staysPut) (d : Disk) :
    Meets (Made location d) (fun _ _ => True) (makeDirectories location d) := by
  rw [makeDirectories_of_none worded d, if_neg stays]
  refine (meets_makeSteps location.steps _ d).mono ?_ fun _ _ _ => trivial
  intro place d₁ made
  obtain ⟨grown, steps_again⟩ := made
  refine ⟨grown, ?_⟩
  intro d'' within start
  rw [makeDirectories_of_none worded d'', if_neg stays, start_eq start]
  exact steps_again d'' within

/-- Where the directories of a path were made, they are found again, and nothing is left to
make. -/
theorem meets_makeDirectories (location : WrittenPath) (d : Disk) :
    Meets (Made location d) (fun _ _ => True) (makeDirectories location d) := by
  cases worded : wordingFault? location with
  | some fault =>
    have refused : makeDirectories location d = .error fault d := by
      unfold makeDirectories
      refine EStateM.bind_of_error ?_
      unfold checkWording
      rw [worded]
      rfl
    rw [refused]
    trivial
  | none =>
    by_cases stays : location.staysPut
    · exact meets_makeDirectories_of_staysPut worded stays d
    · exact meets_makeDirectories_of_steps worded stays d

end Disk

end FlatStore
