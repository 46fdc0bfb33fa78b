import FlatStore.Proofs.Contents
import FlatStore.Store.Memory

/-! # Cached fields and plain contents

    A field store shows the contents of the byte store behind it, whatever the
    cache holds and drops:

    * **Views**: a byte store is seen as plain contents, and says which writes
      it takes (`StoreView`).
    * **Coherence**: every cached text is the one that the store holds. Reads,
      writes, clears and evictions keep it.
    * **Simulation**: a script does on a coherent field store what it does on
      the contents, and gives the same result, if the store takes its writes
      (`perform_simulates`).
-/

namespace FlatStore

/-! ### What a cache holds -/

namespace Cache

/-- The cached text of a key. -/
def value? (c : Cache) (key : String) : Option String :=
  match c with
  | .perpetual entries => entries[key]?
  | .lru cache => cache.entries[key]?

/-- A hit gives the cached text and keeps what is cached. -/
theorem get?_eq_some {c c' : Cache} {key value : String} (h : c.get? key = some (value, c')) :
    c.value? key = some value ∧ c'.value? = c.value? := by
  cases c with
  | perpetual entries =>
    simp only [get?, Option.map_eq_some_iff, Prod.mk.injEq] at h
    obtain ⟨_, h, rfl, rfl⟩ := h
    exact ⟨h, rfl⟩
  | lru cache =>
    simp only [get?, Lru.get?, Option.map_eq_some_iff, Prod.mk.injEq, Prod.exists] at h
    obtain ⟨_, _, ⟨_, h, rfl, rfl⟩, rfl, rfl⟩ := h
    exact ⟨h, rfl⟩

theorem value?_clear (c : Cache) (key : String) : c.clear.value? key = none := by
  cases c <;> simp [clear, value?, Lru.clear]

end Cache

namespace Lru

/-- Driving keys out only takes entries away. -/
theorem entries_evict {c : Lru} {key value : String} (h : c.evict.entries[key]? = some value) :
    c.entries[key]? = some value := by
  unfold evict at h
  split at h
  · exact h
  · next victim _ =>
    simp only [Std.TreeMap.getElem?_erase] at h
    split at h
    · cases h
    · exact h

theorem entries_makeRoom {c : Lru} {n : Nat} {key value : String}
    (h : (c.makeRoom n).entries[key]? = some value) : c.entries[key]? = some value := by
  induction n generalizing c with
  | zero => exact h
  | succ n ih =>
    rw [makeRoom] at h
    split at h
    · exact h
    · exact entries_evict (ih h)

end Lru

/-- A text that is cached after a write is the one that was written, or was cached before. -/
theorem Cache.value?_set {c : Cache} {key value key' value' : String}
    (h : (c.set key value).value? key' = some value') :
    key' = key ∧ value' = value ∨ key' ≠ key ∧ c.value? key' = some value' := by
  -- Either cache ends with an insertion into its entries.
  have insert : ∀ entries : Std.TreeMap String String,
      (entries.insert key value)[key']? = some value' →
      key' = key ∧ value' = value ∨ key' ≠ key ∧ entries[key']? = some value' := by
    intro entries h
    rw [Std.TreeMap.getElem?_insert] at h
    by_cases same : key = key'
    · subst same
      simp at h
      exact Or.inl ⟨rfl, h.symm⟩
    · rw [if_neg (by simpa using same)] at h
      exact Or.inr ⟨fun he => same he.symm, h⟩
  cases c with
  | perpetual entries => exact insert entries h
  | lru cache =>
    simp only [set, Lru.set] at h
    split at h
    · exact insert cache.entries h
    · rcases insert _ h with h | ⟨other, h⟩
      · exact Or.inl h
      · exact Or.inr ⟨other, Lru.entries_makeRoom h⟩

/-- Every cached text is the one that the contents hold. -/
def Cache.Mirrors (cache : Cache) (c : Contents) : Prop :=
  ∀ key value, cache.value? key = some value → c key.toUTF8 = some value.toUTF8

theorem Cache.mirrors_clear (cache : Cache) (c : Contents) : cache.clear.Mirrors c := by
  intro key value hv
  rw [value?_clear] at hv
  cases hv

namespace FieldStore

variable {σ : Type} {c : Contents}

@[simp]
theorem store_remember (f : FieldStore σ) (key value : String) :
    (f.remember key value).store = f.store := by
  unfold remember enforceThreshold
  split <;> rfl

/-- Caching a text that the contents hold, whatever was cached under its key before. -/
theorem mirrors_remember {f : FieldStore σ} {key value : String}
    (held : c key.toUTF8 = some value.toUTF8)
    (others : ∀ key' ≠ key, ∀ value', f.cache.value? key' = some value' →
      c key'.toUTF8 = some value'.toUTF8) : (f.remember key value).cache.Mirrors c := by
  have cached : (f.cache.set key value).Mirrors c := by
    intro key' value' hv
    rcases Cache.value?_set hv with ⟨rfl, rfl⟩ | ⟨other, hv⟩
    · exact held
    · exact others key' other value' hv
  unfold remember enforceThreshold
  split
  · exact Cache.mirrors_clear _ c
  · exact cached

end FieldStore

/-! ### Stores seen as contents -/

/-- A byte store seen as plain contents: in a sound state every read gives what is there, and every
write that the store takes is there afterwards. -/
structure StoreView (σ : Type) [ByteStore σ] where
  sound : σ → Prop
  contents : σ → Contents
  takes : Bytes → Bytes → Prop
  read : ∀ s key, sound s → ∃ s', ByteStore.read key s = .ok (contents s key) s' ∧ sound s' ∧
    contents s' = contents s
  write : ∀ s key value, sound s → takes key value →
    ∃ s', ByteStore.write key value s = .ok () s' ∧ sound s' ∧
      contents s' = fun k => if k = key then some value else contents s k
  flush : ∀ s, sound s → ∃ s', ByteStore.flush s = .ok () s' ∧ sound s' ∧
    contents s' = contents s

/-- A memory store takes every write. -/
def Memory.view : StoreView Memory where
  sound _ := True
  contents m key := m.get? key
  takes _ _ := True
  read m key _ := ⟨m.countRead, rfl, trivial, rfl⟩
  write m key value _ _ := by
    refine ⟨m.put key value, rfl, trivial, ?_⟩
    funext k
    simp only [Memory.get?, Memory.put, Std.TreeMap.getElem?_insert]
    by_cases same : key = k
    · subst same
      simp
    · have other : Bytes.compare key k ≠ .eq := fun he => same (Std.LawfulEqCmp.eq_of_compare he)
      rw [if_neg other, if_neg fun he => same he.symm]
  flush m _ := ⟨m, rfl, trivial, rfl⟩

/-! ### Coherent field stores -/

/-- The field store shows these contents: the byte store holds them, and so does the cache as far as
it goes. -/
structure FieldStore.Shows {σ : Type} [ByteStore σ] (view : StoreView σ) (f : FieldStore σ)
    (c : Contents) : Prop where
  sound : view.sound f.store
  contents : view.contents f.store = c
  cached : ∀ key value, f.cache.value? key = some value → c key.toUTF8 = some value.toUTF8

namespace FieldStore

variable {σ : Type} [ByteStore σ] {view : StoreView σ} {f : FieldStore σ} {c : Contents}

theorem Shows.clearCache (h : Shows view f c) : Shows view f.clearCache c :=
  ⟨h.sound, h.contents, Cache.mirrors_clear f.cache c⟩

/-- Caching a text that the store holds, whatever was cached under its key before. -/
theorem shows_remember {key value : String} (sound : view.sound f.store)
    (contents : view.contents f.store = c) (held : c key.toUTF8 = some value.toUTF8)
    (others : ∀ key' ≠ key, ∀ value', f.cache.value? key' = some value' →
      c key'.toUTF8 = some value'.toUTF8) : Shows view (f.remember key value) c := by
  refine ⟨?_, ?_, mirrors_remember held others⟩
  · rwa [store_remember]
  · rwa [store_remember]

end FieldStore

theorem shows_empty : FieldStore.Shows Memory.view { store := Memory.empty }
    (Memory.view.contents Memory.empty) :=
  ⟨trivial, rfl, fun _ _ h => nomatch h⟩

theorem Utf8.size_toUTF8_cons (c : Char) (cs : List Char) :
    (String.ofList (c :: cs)).toUTF8.size = c.utf8Size + (String.ofList cs).toUTF8.size := by
  rw [String.ofList_cons, String.toUTF8, String.size_toByteArray, String.utf8ByteSize_append,
    String.utf8ByteSize_singleton]
  rfl

/-- Every character takes a byte at least. -/
theorem Utf8.length_le_size_toUTF8 (cs : List Char) :
    cs.length ≤ (String.ofList cs).toUTF8.size := by
  induction cs with
  | nil => exact Nat.zero_le _
  | cons c cs ih =>
    have := c.utf8Size_pos
    rw [size_toUTF8_cons, List.length_cons]
    omega

/-- Every character takes four bytes at most. -/
theorem Utf8.size_toUTF8_le_length (cs : List Char) :
    (String.ofList cs).toUTF8.size ≤ 4 * cs.length := by
  induction cs with
  | nil => exact Nat.zero_le _
  | cons c cs ih =>
    have := c.utf8Size_le_four
    rw [size_toUTF8_cons, List.length_cons]
    omega

/-- A byte that is none of the characters of a text of single bytes is not in it. -/
theorem Utf8.not_mem_toUTF8 {b : UInt8} {cs : List Char}
    (apart : ∀ c ∈ cs, c.utf8Size = 1 ∧ c.val.toUInt8 ≠ b) :
    b ∉ (String.ofList cs).toUTF8.data.toList := by
  rw [String.toUTF8, String.toByteArray_ofList, List.utf8Encode, List.data_toByteArray,
    List.toList_toArray, List.mem_flatMap]
  rintro ⟨c, there, within⟩
  obtain ⟨single, other⟩ := apart c there
  rw [String.utf8EncodeChar_eq_singleton single, List.mem_singleton] at within
  exact other within.symm

/-- Bytes that decode to a text are the bytes of that text. -/
theorem Utf8.toUTF8_of_decode {b : Bytes} {text : String} (h : Utf8.decode b = .ok text) :
    text.toUTF8 = b := by
  unfold Utf8.decode String.fromUTF8? at h
  split at h
  · next found hfound =>
    cases h
    split at hfound
    · cases hfound
      rfl
    · cases hfound
  · cases h

namespace FieldStore

variable {σ : Type} [ByteStore σ] {view : StoreView σ} {f : FieldStore σ} {c : Contents}

/-- A read gives what the contents hold. -/
theorem get_shows (h : Shows view f c) (key : String) :
    ∃ f', Shows view f' c ∧ get key f =
      match c.read key with
      | .ok found => .ok found f'
      | .error e => .error e f' := by
  unfold get
  cases hit : f.cache.get? key with
  | some found =>
    -- A hit: what is cached is what the contents hold.
    obtain ⟨value, cache⟩ := found
    obtain ⟨cached, same⟩ := Cache.get?_eq_some hit
    have held := h.cached key value cached
    refine ⟨{ f with cache, hits := f.hits + 1 },
      ⟨h.sound, h.contents, fun key value hv => h.cached key value (same ▸ hv)⟩, ?_⟩
    simp only [Contents.read, held, Utf8.decode_toUTF8]
  | none =>
    -- A miss: the store is asked, and a text that it has is cached.
    obtain ⟨s, read, sound, contents⟩ := view.read f.store key.toUTF8 h.sound
    have shows₁ : Shows view { f with misses := f.misses + 1, store := s } c :=
      ⟨sound, contents.trans h.contents, h.cached⟩
    simp only [read, h.contents, Contents.read]
    cases held : c key.toUTF8 with
    | none => exact ⟨_, shows₁, rfl⟩
    | some bytes =>
      cases decoded : Utf8.decode bytes with
      | error fault =>
        simp only [decoded]
        exact ⟨_, shows₁, rfl⟩
      | ok value =>
        simp only [decoded]
        refine ⟨_, shows_remember sound shows₁.contents ?_ fun key' _ value' hv =>
          h.cached key' value' hv, rfl⟩
        rw [held, Utf8.toUTF8_of_decode decoded]

/-- A write that the store takes changes the contents by just that field. -/
theorem put_shows (h : Shows view f c) {key value : String}
    (takes : view.takes key.toUTF8 value.toUTF8) :
    ∃ f', Shows view f' (c.put key value) ∧ put key value f = .ok () f' := by
  -- The store is written first, then the cache; texts cached under other keys stay right.
  obtain ⟨s, write, sound, contents⟩ := view.write f.store _ _ h.sound takes
  have held : view.contents s = c.put key value := by
    rw [contents, h.contents]
    rfl
  refine ⟨{ f with store := s }.remember key value, shows_remember sound held
    (Contents.put_self c key value) ?_, ?_⟩
  · intro key' other value' hv
    have apart : key'.toUTF8 ≠ key.toUTF8 := fun he => other (Contents.toUTF8_inj.1 he)
    rw [Contents.put_of_ne apart]
    exact h.cached key' value' hv
  · simp only [put, write]

theorem flush_shows (h : Shows view f c) : ∃ f', Shows view f' c ∧ flush f = .ok () f' := by
  obtain ⟨s, flushed, sound, contents⟩ := view.flush f.store h.sound
  refine ⟨{ f with store := s }, ⟨sound, contents.trans h.contents, h.cached⟩, ?_⟩
  simp only [flush, flushed]

end FieldStore

/-! ### Scripts -/

/-- The writes of a script that runs on the given contents. -/
def Script.writes {α : Type} : Script α → Contents → List (String × String)
  | .done _, _ => []
  | .fail _, _ => []
  | .read key next, c =>
    match c.read key with
    | .ok found => (next found).writes c
    | .error _ => []
  | .write key value next, c => (key, value) :: next.writes (c.put key value)

/-- No branch of the script writes a key in `P`. -/
def Script.Spares {α : Type} (P : Key → Prop) : Script α → Prop
  | .done _ => True
  | .fail _ => True
  | .read _ next => ∀ found, (next found).Spares P
  | .write key _ next => (∀ k, P k → k.text ≠ key) ∧ next.Spares P

/-- The store takes all of these writes. -/
def StoreView.TakesAll {σ : Type} [ByteStore σ] (view : StoreView σ)
    (writes : List (String × String)) : Prop :=
  ∀ w ∈ writes, view.takes w.1.toUTF8 w.2.toUTF8

theorem StoreView.takesAll_nil {σ : Type} [ByteStore σ] (view : StoreView σ) : view.TakesAll [] :=
  List.forall_mem_nil _

/-- The state that a call leaves behind, whatever its outcome. -/
def leftBy {ε σ α : Type} : EStateM.Result ε σ α → σ
  | .ok _ s => s
  | .error _ s => s

/-- Keys that a script spares keep their values. -/
theorem Script.Spares.changes {α : Type} {P : Key → Prop} {s : Script α} (h : s.Spares P)
    (c : Contents) : Contents.Changes (fun k => ¬ P k) c (leftBy (s.run c)) := by
  induction s generalizing c with
  | done | fail => exact .refl _ c
  | read key next ih =>
    rw [run]
    split
    · exact ih _ (h _) c
    · exact .refl _ c
  | write key value next ih => exact (Contents.Changes.of_spared h.1 c value).trans (ih h.2 _)

namespace FieldStore

variable {σ α : Type} [ByteStore σ] {view : StoreView σ} {f : FieldStore σ} {c : Contents}

/-- A script does on a coherent field store what it does on the contents. -/
theorem perform_simulates (h : Shows view f c) {s : Script α} (takes : view.TakesAll (s.writes c)) :
    ∃ f', match s.run c with
      | .ok a c' => perform s f = .ok a f' ∧ Shows view f' c'
      | .error e c' => perform s f = .error e f' ∧ Shows view f' c' := by
  -- The field store follows the contents read by read and write by write.
  induction s generalizing f c with
  | done result => exact ⟨f, rfl, h⟩
  | fail failure => exact ⟨f, rfl, h⟩
  | read key next ih =>
    obtain ⟨f₁, shows₁, read⟩ := get_shows h key
    simp only [Script.run, perform, read]
    cases found : c.read key with
    | error e => exact ⟨f₁, rfl, shows₁⟩
    | ok value =>
      simp only [Script.writes, found] at takes
      exact ih value shows₁ takes
  | write key value next ih =>
    obtain ⟨f₁, shows₁, write⟩ := put_shows h (takes (key, value) (by simp [Script.writes]))
    simp only [Script.run, perform, write]
    exact ih shows₁ fun w hw => takes w (by simp [Script.writes, hw])

/-- A script that succeeds on the contents succeeds on the field store. -/
theorem perform_ok (h : Shows view f c) {s : Script α} {a : α} {c' : Contents}
    (run : s.run c = .ok a c') (takes : view.TakesAll (s.writes c)) :
    ∃ f', perform s f = .ok a f' ∧ Shows view f' c' := by
  obtain ⟨f', h'⟩ := perform_simulates h takes
  rw [run] at h'
  exact ⟨f', h'⟩

theorem perform_left (h : Shows view f c) {s : Script α} (takes : view.TakesAll (s.writes c)) :
    Shows view (leftBy (perform s f)) (leftBy (s.run c)) := by
  obtain ⟨f', h'⟩ := perform_simulates h takes
  cases run : s.run c with
  | ok a c' =>
    rw [run] at h'
    rw [h'.1]
    exact h'.2
  | error e c' =>
    rw [run] at h'
    rw [h'.1]
    exact h'.2

end FieldStore

end FlatStore
