import FlatStore.Proofs.Disk
import FlatStore.Proofs.Footprint
import FlatStore.Store.Faulty

/-! # Scripts that are cut short

    Any read or write of a byte store may fail, and ends the script that it
    belongs to. What the script wrote before stays written.

    * **Stops**: the contents at which a script can be cut short are those in
      front of its reads and writes (`Script.stops`).
    * **Unreliable stores** fail as they please, but a call that fails changes
      nothing (`Unreliable`), as with `Unreliable.faulty`.
    * **Outcomes**: on such a store a script ends as it does on the contents, or
      with an error of the store at one of its stops (`perform_unreliable`).
-/

namespace FlatStore

/-! ### Where a script can stop -/

namespace Script

variable {α β : Type} {s : Script α} {c c' : Contents}

/-- The contents in front of each read and each write of a script. -/
def stops : Script α → Contents → List Contents
  | .done _, _ => []
  | .fail _, _ => []
  | .read key next, c =>
    c :: match c.read key with
      | .ok found => (next found).stops c
      | .error _ => []
  | .write key value next, c => c :: next.stops (c.put key value)

theorem stops_bind (s : Script α) (f : α → Script β) (c : Contents) :
    (s >>= f).stops c = s.stops c ++
      match s.run c with
      | .ok a c => (f a).stops c
      | .error _ _ => [] := by
  show (s.bind f).stops c = _
  induction s generalizing c with
  | done | fail => rfl
  | read key next ih =>
    simp only [bind, stops, run]
    cases c.read key with
    | ok found => exact congrArg (c :: ·) (ih found c)
    | error e => rfl
  | write key value next ih => exact congrArg (c :: ·) (ih (c.put key value))

/-- A stop of two scripts in a row is one of the first, or of the second from where the first ended. -/
theorem mem_stops_bind {f : α → Script β} (h : c' ∈ (s >>= f).stops c) :
    c' ∈ s.stops c ∨ ∃ a c₁, s.run c = .ok a c₁ ∧ c' ∈ (f a).stops c₁ := by
  rw [stops_bind, List.mem_append] at h
  rcases h with h | h
  · exact Or.inl h
  · cases run : s.run c with
    | ok a c₁ =>
      rw [run] at h
      exact Or.inr ⟨a, c₁, rfl, h⟩
    | error e c₁ =>
      rw [run] at h
      cases h

theorem mem_stops_put {key value : String} (h : c' ∈ (put key value).stops c) : c' = c :=
  List.mem_singleton.1 h

/-- A script that only asks changes nothing. -/
theorem Asks.leaves {S : Structure} (h : s.Asks S) (c : Contents) :
    leftBy (s.run c) = c ∧ ∀ c' ∈ s.stops c, c' = c := by
  induction s with
  | done | fail => exact ⟨rfl, List.forall_mem_nil _⟩
  | read key next ih =>
    simp only [run, stops, List.mem_cons, forall_eq_or_imp, true_and]
    cases c.read key with
    | ok found => exact ih found (h.2 found)
    | error e => exact ⟨rfl, List.forall_mem_nil _⟩
  | write => exact h.elim

/-- Behind a script that only asks, the next one starts from the same contents. -/
theorem Asks.mem_stops_bind {S : Structure} (asks : s.Asks S) {f : α → Script β}
    (h : c' ∈ (s >>= f).stops c) : c' = c ∨ ∃ a, s.run c = .ok a c ∧ c' ∈ (f a).stops c := by
  obtain ⟨left, stops⟩ := asks.leaves c
  rcases Script.mem_stops_bind h with first | ⟨a, c₁, run, behind⟩
  · exact Or.inl (stops c' first)
  · rw [run] at left
    obtain rfl : c₁ = c := left
    exact Or.inr ⟨a, run, behind⟩

/-- Keys that a script spares have kept their values wherever it stops. -/
theorem Spares.changes_of_mem_stops {P : Key → Prop} (h : s.Spares P) (mem : c' ∈ s.stops c) :
    Contents.Changes (fun k => ¬ P k) c c' := by
  induction s generalizing c with
  | done | fail => cases mem
  | read key next ih =>
    rw [stops] at mem
    rcases List.mem_cons.1 mem with rfl | mem
    · exact .refl _ c'
    · split at mem
      · exact ih _ (h _) mem
      · cases mem
  | write key value next ih =>
    rcases List.mem_cons.1 mem with rfl | mem
    · exact .refl _ c'
    · exact (Contents.Changes.of_spared h.1 c value).trans (ih h.2 mem)

end Script

/-! ### Stores whose calls may fail -/

/-- A byte store of which any read or write may fail. A read that succeeds gives what is there, and a
call that fails changes nothing. -/
structure Unreliable (σ : Type) [ByteStore σ] where
  sound : σ → Prop
  contents : σ → Contents
  read : ∀ s key, sound s →
    Meets (fun found s' => found = contents s key ∧ sound s' ∧ contents s' = contents s)
      (fun _ s' => sound s' ∧ contents s' = contents s) (ByteStore.read key s)
  write : ∀ s key value, sound s →
    Meets (fun _ s' => sound s' ∧
        contents s' = fun k => if k = key then some value else contents s k)
      (fun _ s' => sound s' ∧ contents s' = contents s) (ByteStore.write key value s)

/-- A memory store, whatever its allowances of reads and writes are. -/
def Unreliable.faulty : Unreliable Faulty where
  sound _ := True
  contents s := Memory.view.contents s.memory
  read s key _ := by
    simp only [ByteStore.read]
    split
    · exact ⟨trivial, rfl⟩
    · exact ⟨rfl, trivial, rfl⟩
  write s key value _ := by
    simp only [ByteStore.write]
    split
    · exact ⟨trivial, rfl⟩
    · obtain ⟨m, run, -, contents⟩ := Memory.view.write s.memory key value trivial trivial
      cases run
      exact ⟨trivial, contents⟩

/-- Some read or write of the byte store fails with the error. -/
def ByteStore.Reports (σ : Type) [ByteStore σ] (e : Error) : Prop :=
  ∃ s s' : σ, (∃ key, ByteStore.read key s = .error e s') ∨
    ∃ key value, ByteStore.write key value s = .error e s'

/-- The field store reflects these contents: the byte store holds them, and so does the cache as far
as it goes. -/
structure FieldStore.Reflects {σ : Type} [ByteStore σ] (view : Unreliable σ) (f : FieldStore σ)
    (c : Contents) : Prop where
  sound : view.sound f.store
  contents : view.contents f.store = c
  cached : f.cache.Mirrors c

namespace FieldStore

variable {σ α : Type} [ByteStore σ] {view : Unreliable σ} {f : FieldStore σ} {c : Contents}

/-- With nothing in its cache a field store reflects its own byte store. -/
theorem reflects_of_fresh (sound : view.sound f.store) (fresh : ∀ key, f.cache.value? key = none) :
    Reflects view f (view.contents f.store) := by
  refine ⟨sound, rfl, ?_⟩
  intro key value hv
  rw [fresh] at hv
  cases hv

theorem Reflects.clearCache (h : Reflects view f c) : Reflects view f.clearCache c :=
  ⟨h.sound, h.contents, Cache.mirrors_clear f.cache c⟩

/-- A byte store with the same contents does as well. -/
theorem Reflects.withStore (h : Reflects view f c) {store : σ} (sound : view.sound store)
    (contents : view.contents store = view.contents f.store) :
    Reflects view { f with store } c :=
  ⟨sound, contents.trans h.contents, h.cached⟩

/-- Caching a text that the store holds, whatever was cached under its key before. -/
theorem reflects_remember {key value : String} (sound : view.sound f.store)
    (contents : view.contents f.store = c) (held : c key.toUTF8 = some value.toUTF8)
    (others : ∀ key' ≠ key, ∀ value', f.cache.value? key' = some value' →
      c key'.toUTF8 = some value'.toUTF8) : Reflects view (f.remember key value) c := by
  refine ⟨?_, ?_, mirrors_remember held others⟩
  · rwa [store_remember]
  · rwa [store_remember]

theorem get_unreliable (h : Reflects view f c) (key : String) :
    Meets (fun found f' => c.read key = .ok found ∧ Reflects view f' c)
      (fun e f' => (c.read key = .error e ∨ ByteStore.Reports σ e) ∧ Reflects view f' c)
      (get key f) := by
  unfold get
  cases hit : f.cache.get? key with
  | some found =>
    obtain ⟨value, cache⟩ := found
    obtain ⟨cached, same⟩ := Cache.get?_eq_some hit
    refine ⟨?_, h.sound, h.contents, fun key value hv => h.cached key value (same ▸ hv)⟩
    simp only [Contents.read, h.cached key value cached, Utf8.decode_toUTF8]
  | none =>
    have asked := view.read f.store key.toUTF8 h.sound
    simp only
    cases run : ByteStore.read key.toUTF8 f.store with
    | error e s =>
      obtain ⟨sound, contents⟩ := asked.of_error run
      exact ⟨Or.inr ⟨f.store, s, Or.inl ⟨_, run⟩⟩, sound, contents.trans h.contents, h.cached⟩
    | ok found s =>
      obtain ⟨rfl, sound, contents⟩ := asked.of_ok run
      have same := contents.trans h.contents
      simp only [h.contents, Contents.read]
      cases held : c key.toUTF8 with
      | none => exact ⟨rfl, sound, same, h.cached⟩
      | some bytes =>
        cases decoded : Utf8.decode bytes with
        | error fault =>
          simp only [decoded]
          exact ⟨Or.inl rfl, sound, same, h.cached⟩
        | ok value =>
          have there : c key.toUTF8 = some value.toUTF8 := by
            rw [held, Utf8.toUTF8_of_decode decoded]
          simp only [decoded]
          exact ⟨rfl, reflects_remember sound same there fun key' _ => h.cached key'⟩

theorem put_unreliable (h : Reflects view f c) (key value : String) :
    Meets (fun _ f' => Reflects view f' (c.put key value))
      (fun e f' => ByteStore.Reports σ e ∧ Reflects view f' c) (put key value f) := by
  have written := view.write f.store key.toUTF8 value.toUTF8 h.sound
  unfold put
  cases run : ByteStore.write key.toUTF8 value.toUTF8 f.store with
  | error e s =>
    obtain ⟨sound, contents⟩ := written.of_error run
    exact ⟨⟨f.store, s, Or.inr ⟨_, _, run⟩⟩, h.withStore sound contents⟩
  | ok _ s =>
    obtain ⟨sound, contents⟩ := written.of_ok run
    have held : view.contents s = c.put key value := by
      rw [contents, h.contents]
      rfl
    refine reflects_remember sound held (Contents.put_self c key value) ?_
    intro key' other value' hv
    have apart : key'.toUTF8 ≠ key.toUTF8 := fun he => other (Contents.toUTF8_inj.1 he)
    rw [Contents.put_of_ne apart]
    exact h.cached key' value' hv

/-! ### Outcomes -/

/-- A script ends as it does on the contents, or with an error of the byte store at one of its
stops. -/
theorem perform_unreliable (h : Reflects view f c) (s : Script α) :
    Meets (fun a f' => ∃ c', s.run c = .ok a c' ∧ Reflects view f' c')
      (fun e f' => (∃ c', s.run c = .error e c' ∧ Reflects view f' c') ∨
        ∃ reason, e = .error reason ∧ ByteStore.Reports σ reason ∧
          ∃ c' ∈ s.stops c, Reflects view f' c') (perform s f) := by
  induction s generalizing f c with
  | done a => exact ⟨c, rfl, h⟩
  | fail e => exact Or.inl ⟨c, rfl, h⟩
  | read key next ih =>
    have asked := get_unreliable h key
    unfold perform
    cases run : get key f with
    | ok found f₁ =>
      obtain ⟨read, reflects⟩ := asked.of_ok run
      simp only [Script.run, Script.stops, read]
      refine (ih found reflects).mono (fun _ _ => id) ?_
      rintro e f' (ended | ⟨reason, rfl, reports, c', mem, reflects'⟩)
      · exact Or.inl ended
      · exact Or.inr ⟨reason, rfl, reports, c', List.mem_cons_of_mem c mem, reflects'⟩
    | error e f₁ =>
      obtain ⟨cause, reflects⟩ := asked.of_error run
      rcases cause with read | reports
      · simp only [Script.run, read]
        exact Or.inl ⟨c, rfl, reflects⟩
      · refine Or.inr ⟨e, rfl, reports, c, ?_, reflects⟩
        rw [Script.stops]
        exact List.mem_cons_self
  | write key value next ih =>
    have written := put_unreliable h key value
    unfold perform
    cases run : put key value f with
    | ok _ f₁ =>
      refine (ih (written.of_ok run)).mono (fun _ _ => id) ?_
      rintro e f' (ended | ⟨reason, rfl, reports, c', mem, reflects'⟩)
      · exact Or.inl ended
      · exact Or.inr ⟨reason, rfl, reports, c', List.mem_cons_of_mem c mem, reflects'⟩
    | error e f₁ =>
      obtain ⟨reports, reflects⟩ := written.of_error run
      exact Or.inr ⟨e, rfl, reports, c, List.mem_cons_self, reflects⟩

end FieldStore

end FlatStore
