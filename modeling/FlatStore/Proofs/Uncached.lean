import Mathlib
import FlatStore.Proofs.StoreLaws

/-! # The cache changes nothing

    A field store behaves as its byte store would with no cache in front of it,
    whichever cache it has, whatever its clear threshold is, and whichever
    writes fail:

    * **Without a cache** a field is read from the byte store and decoded anew
      each time (`Uncached`).
    * **Step**: as long as every cached text is the one that the store holds, a
      use of the field store has the outcome that it has without a cache, and
      every cached text still is (`serve_follows`).
    * **Run**: so any two caches give the same outcomes and leave the same
      contents, and no cached text ever differs from the stored one
      (`cache_changes_nothing`).
-/

namespace FlatStore

/-! ### Uses of a field store -/

/-- A use of a field store. All operations on fields, pools and trees are scripts. -/
inductive Use where
  | call {α : Type} (s : Script α)
  | clearCache
  | flush

/-- What a use gives if it succeeds. -/
def Use.Result : Use → Type
  | @call α _ => α
  | clearCache | flush => Unit

/-- The outcome of a use, with the type of its result. -/
abbrev Outcome := Σ α : Type, Except Failure α

/-- One use after the other, each from where the one before it ended, failed or not. -/
def runAll {τ : Type} (serve : (u : Use) → EStateM Failure τ u.Result) :
    List Use → τ → List Outcome × τ
  | [], s => ([], s)
  | u :: uses, s =>
    match serve u s with
    | .ok a s =>
      let (rest, s) := runAll serve uses s
      (⟨u.Result, .ok a⟩ :: rest, s)
    | .error e s =>
      let (rest, s) := runAll serve uses s
      (⟨u.Result, .error e⟩ :: rest, s)

/-- The same call, with its error among the failures. -/
def failing {σ α : Type} (call : EStateM Error σ α) : EStateM Failure σ α := fun s =>
  match call s with
  | .ok a s => .ok a s
  | .error e s => .error (.error e) s

/-! ### With and without a cache -/

namespace Uncached

variable {σ α : Type} [ByteStore σ]

/-- The text of a field, read from the byte store. -/
def get (key : String) : EStateM Error σ (Option String) := fun s =>
  match ByteStore.read key.toUTF8 s with
  | .error e s => .error e s
  | .ok none s => .ok none s
  | .ok (some bytes) s =>
    match Utf8.decode bytes with
    | .error fault => .error (.corruptValue key (.utf8 fault)) s
    | .ok value => .ok (some value) s

/-- Write a field to the byte store. -/
def put (key value : String) : EStateM Error σ Unit := ByteStore.write key.toUTF8 value.toUTF8

/-- Run a script on the byte store. -/
def perform : Script α → EStateM Failure σ α
  | .done result, s => .ok result s
  | .fail failure, s => .error failure s
  | .read key next, s =>
    match get key s with
    | .ok found s => perform (next found) s
    | .error e s => .error (.error e) s
  | .write key value next, s =>
    match put key value s with
    | .ok () s => perform next s
    | .error e s => .error (.error e) s

/-- One use of the byte store in place of a field store; there is no cache to empty. -/
def serve : (u : Use) → EStateM Failure σ u.Result
  | .call s => perform s
  | .clearCache => pure ()
  | .flush => failing ByteStore.flush

end Uncached

namespace FieldStore

variable {σ α : Type} [ByteStore σ]

/-- One use of a field store. -/
def serve : (u : Use) → EStateM Failure (FieldStore σ) u.Result
  | .call s => perform s
  | .clearCache => fun f => .ok () f.clearCache
  | .flush => failing flush

/-- The states of a field store before, between and behind the reads and writes of a script. -/
def states : Script α → FieldStore σ → List (FieldStore σ)
  | .done _, f => [f]
  | .fail _, f => [f]
  | .read key next, f =>
    f :: match get key f with
      | .ok found f => states (next found) f
      | .error _ f => [f]
  | .write key value next, f =>
    f :: match put key value f with
      | .ok () f => states next f
      | .error _ f => [f]

/-- The states of a field store in the course of a use. -/
def statesOf : Use → FieldStore σ → List (FieldStore σ)
  | .call s, f => states s f
  | .clearCache, f => [f, f.clearCache]
  | .flush, f => [f, leftBy (flush f)]

/-- The states of a field store in the course of a run. -/
def statesOfAll : List Use → FieldStore σ → List (FieldStore σ)
  | [], f => [f]
  | u :: uses, f => statesOf u f ++ statesOfAll uses (leftBy (serve u f))

/-! ### Cached texts and stored values -/

/-- Every cached text is, as UTF-8, the value that the store holds. -/
def Coherent (laws : StoreLaws σ) (f : FieldStore σ) : Prop :=
  ∀ key value, f.cache.value? key = some value →
    laws.contents f.store key.toUTF8 = some value.toUTF8

/-- The field store is coherent, and calls cannot tell its byte store from the other one. -/
structure Follows (laws : StoreLaws σ) (f : FieldStore σ) (s : σ) : Prop where
  sound : laws.sound f.store
  sound_uncached : laws.sound s
  same : laws.state f.store = laws.state s
  coherent : f.Coherent laws

variable {laws : StoreLaws σ} {f : FieldStore σ} {s : σ}

theorem Follows.contents (h : Follows laws f s) : laws.contents f.store = laws.contents s :=
  laws.contents_same _ _ h.same

theorem Follows.clearCache (h : Follows laws f s) : Follows laws f.clearCache s :=
  ⟨h.sound, h.sound_uncached, h.same, Cache.mirrors_clear f.cache _⟩

/-- Caching a text that the store holds, whatever was cached under its key before. -/
theorem follows_remember {key value : String} (sound : laws.sound f.store)
    (sound_uncached : laws.sound s) (same : laws.state f.store = laws.state s)
    (held : laws.contents f.store key.toUTF8 = some value.toUTF8)
    (others : ∀ key' ≠ key, ∀ value', f.cache.value? key' = some value' →
      laws.contents f.store key'.toUTF8 = some value'.toUTF8) :
    Follows laws (f.remember key value) s := by
  have store := f.store_remember key value
  refine ⟨?_, sound_uncached, ?_, ?_⟩
  · rwa [store]
  · rwa [store]
  · unfold Coherent
    rw [store]
    exact mirrors_remember held others

/-! ### Reads and writes -/

/-- A hit gives what the store holds, and a miss asks it. -/
theorem get_follows (h : Follows laws f s) (key : String) :
    SameOutcome (Follows laws) (get key f) (Uncached.get key s) := by
  obtain ⟨s', read', sound', same'⟩ := laws.read s key.toUTF8 h.sound_uncached
  unfold get Uncached.get
  rw [read']
  cases hit : f.cache.get? key with
  | some found =>
    obtain ⟨value, cache⟩ := found
    obtain ⟨cached, unchanged⟩ := Cache.get?_eq_some hit
    have held := h.coherent key value cached
    rw [h.contents] at held
    simp only [held, Utf8.decode_toUTF8]
    refine .ok _ ⟨h.sound, sound', h.same.trans same'.symm, ?_⟩
    exact fun key value hv => h.coherent key value (unchanged ▸ hv)
  | none =>
    obtain ⟨t, read, sound, same⟩ := laws.read f.store key.toUTF8 h.sound
    have both : laws.state t = laws.state s' := by rw [same, h.same, same']
    have missed : Follows laws { f with misses := f.misses + 1, store := t } s' := by
      refine ⟨sound, sound', both, ?_⟩
      intro key value hv
      rw [laws.contents_same _ _ same]
      exact h.coherent key value hv
    simp only [read, h.contents]
    cases held : laws.contents s key.toUTF8 with
    | none => exact .ok _ missed
    | some bytes =>
      cases decoded : Utf8.decode bytes with
      | error fault =>
        simp only [decoded]
        exact .error _ missed
      | ok value =>
        simp only [decoded]
        refine .ok _ (follows_remember sound sound' both ?_ fun key' _ => missed.coherent key')
        rw [laws.contents_same _ _ both, laws.contents_same _ _ same', held,
          Utf8.toUTF8_of_decode decoded]

/-- A write goes to the store first: one that fails leaves store and cache as they were. -/
theorem put_follows (h : Follows laws f s) (key value : String) :
    SameOutcome (Follows laws) (put key value f) (Uncached.put key value s) := by
  have written := laws.write f.store key.toUTF8 value.toUTF8 h.sound
  have written' := laws.write s key.toUTF8 value.toUTF8 h.sound_uncached
  have outcome := laws.write_same f.store s key.toUTF8 value.toUTF8 h.sound h.sound_uncached h.same
  unfold put Uncached.put
  generalize ByteStore.write key.toUTF8 value.toUTF8 f.store = result at written outcome
  generalize ByteStore.write key.toUTF8 value.toUTF8 s = result' at written' outcome
  cases outcome with
  | @error t s' e same =>
    refine .error e ⟨written.1, written'.1, same, ?_⟩
    intro key' value' hv
    rw [written.2]
    exact h.coherent key' value' hv
  | @ok t s' _ same =>
    refine .ok () (follows_remember written.1 written'.1 same ?_ ?_)
    · exact (congrFun written.2 _).trans (if_pos rfl)
    · intro key' other value' hv
      have apart : key'.toUTF8 ≠ key.toUTF8 := fun he => other (Contents.toUTF8_inj.1 he)
      exact ((congrFun written.2 _).trans (if_neg apart)).trans (h.coherent key' value' hv)

theorem flush_follows (h : Follows laws f s) :
    SameOutcome (Follows laws) (flush f) (ByteStore.flush s) := by
  have flushed := laws.flush f.store h.sound
  have flushed' := laws.flush s h.sound_uncached
  have outcome := laws.flush_same f.store s h.sound h.sound_uncached h.same
  unfold flush
  generalize (ByteStore.flush : EStateM Error σ Unit) f.store = result at flushed outcome
  generalize (ByteStore.flush : EStateM Error σ Unit) s = result' at flushed' outcome
  -- Flushing leaves the contents alone, so what is cached stays right.
  have coherent : ∀ {t s' : σ}, laws.sound t → laws.sound s' → laws.state t = laws.state s' →
      laws.contents t = laws.contents f.store →
      Follows laws { f with store := t } s' := by
    intro t s' sound sound' same contents
    refine ⟨sound, sound', same, ?_⟩
    intro key value hv
    rw [contents]
    exact h.coherent key value hv
  cases outcome with
  | ok _ same => exact .ok () (coherent flushed.1 flushed'.1 same flushed.2)
  | error e same => exact .error e (coherent flushed.1 flushed'.1 same flushed.2)

/-! ### Scripts -/

/-- A script has the outcome that it has without a cache. -/
theorem perform_follows (h : Follows laws f s) (script : Script α) :
    SameOutcome (Follows laws) (perform script f) (Uncached.perform script s) := by
  induction script generalizing f s with
  | done result => exact .ok result h
  | fail failure => exact .error failure h
  | read key next ih =>
    have here := get_follows h key
    simp only [perform, Uncached.perform]
    generalize get key f = result at here
    generalize Uncached.get key s = result' at here
    cases here with
    | ok found h => exact ih found h
    | error e h => exact .error _ h
  | write key value next ih =>
    have here := put_follows h key value
    simp only [perform, Uncached.perform]
    generalize put key value f = result at here
    generalize Uncached.put key value s = result' at here
    cases here with
    | ok _ h => exact ih h
    | error e h => exact .error _ h

/-- In the course of a script every cached text is the stored one. -/
theorem coherent_of_mem_states (h : Follows laws f s) {script : Script α} {f' : FieldStore σ}
    (mem : f' ∈ states script f) : f'.Coherent laws := by
  induction script generalizing f s with
  | done | fail =>
    rw [List.mem_singleton.1 mem]
    exact h.coherent
  | read key next ih =>
    have here := get_follows h key
    simp only [states] at mem
    generalize get key f = result at here mem
    generalize Uncached.get key s = result' at here
    rcases List.mem_cons.1 mem with rfl | mem
    · exact h.coherent
    · cases here with
      | ok found h => exact ih found h mem
      | error e h =>
        rw [List.mem_singleton.1 mem]
        exact h.coherent
  | write key value next ih =>
    have here := put_follows h key value
    simp only [states] at mem
    generalize put key value f = result at here mem
    generalize Uncached.put key value s = result' at here
    rcases List.mem_cons.1 mem with rfl | mem
    · exact h.coherent
    · cases here with
      | ok _ h => exact ih h mem
      | error e h =>
        rw [List.mem_singleton.1 mem]
        exact h.coherent

/-! ### Runs -/

/-- One use has the outcome that it has without a cache. -/
theorem serve_follows (h : Follows laws f s) (u : Use) :
    SameOutcome (Follows laws) (serve u f) (Uncached.serve u s) := by
  cases u with
  | call script => exact perform_follows h script
  | clearCache => exact .ok () h.clearCache
  | flush =>
    have here := flush_follows h
    simp only [serve, Uncached.serve, failing]
    generalize flush f = result at here
    generalize (ByteStore.flush : EStateM Error σ Unit) s = result' at here
    cases here with
    | ok a h => exact .ok a h
    | error e h => exact .error _ h

theorem coherent_of_mem_statesOf (h : Follows laws f s) {u : Use} {f' : FieldStore σ}
    (mem : f' ∈ statesOf u f) : f'.Coherent laws := by
  cases u with
  | call script => exact coherent_of_mem_states h mem
  | clearCache =>
    simp only [statesOf, List.mem_cons, List.not_mem_nil, or_false] at mem
    rcases mem with rfl | rfl
    · exact h.coherent
    · exact h.clearCache.coherent
  | flush =>
    simp only [statesOf, List.mem_cons, List.not_mem_nil, or_false] at mem
    rcases mem with rfl | rfl
    · exact h.coherent
    · exact (flush_follows h).left.coherent

/-- A run has the outcomes that it has without a cache. -/
theorem runAll_follows (h : Follows laws f s) (uses : List Use) :
    (runAll serve uses f).1 = (runAll Uncached.serve uses s).1 ∧
      Follows laws (runAll serve uses f).2 (runAll Uncached.serve uses s).2 := by
  induction uses generalizing f s with
  | nil => exact ⟨rfl, h⟩
  | cons u uses ih =>
    have here := serve_follows h u
    simp only [runAll]
    generalize serve u f = result at here
    generalize Uncached.serve u s = result' at here
    cases here with
    | ok a h =>
      obtain ⟨same, last⟩ := ih h
      exact ⟨congrArg (⟨u.Result, .ok a⟩ :: ·) same, last⟩
    | error e h =>
      obtain ⟨same, last⟩ := ih h
      exact ⟨congrArg (⟨u.Result, .error e⟩ :: ·) same, last⟩

/-- In the course of a run every cached text is the stored one. -/
theorem coherent_of_mem_statesOfAll (h : Follows laws f s) {uses : List Use} {f' : FieldStore σ}
    (mem : f' ∈ statesOfAll uses f) : f'.Coherent laws := by
  induction uses generalizing f s with
  | nil =>
    rw [List.mem_singleton.1 mem]
    exact h.coherent
  | cons u uses ih =>
    rcases List.mem_append.1 mem with mem | mem
    · exact coherent_of_mem_statesOf h mem
    · exact ih (serve_follows h u).left mem

/-- With nothing in its cache a field store follows its own byte store. -/
theorem follows_of_fresh (sound : laws.sound f.store) (fresh : ∀ key, f.cache.value? key = none) :
    Follows laws f f.store := by
  refine ⟨sound, sound, rfl, ?_⟩
  intro key value hv
  rw [fresh] at hv
  cases hv

/-- Whatever is cached, whatever the clear threshold is, and whichever writes are refused: two field
stores on the same byte store, both with nothing cached at first, give the same outcomes in every
run and leave the same contents, namely those of the byte store without a cache; and at no point is
a cached text another one than the stored. -/
theorem cache_changes_nothing (laws : StoreLaws σ) {s : Refusing σ} (sound : laws.sound s.store)
    {f g : FieldStore (Refusing σ)} (on : f.store = s) (on' : g.store = s)
    (fresh : ∀ key, f.cache.value? key = none) (fresh' : ∀ key, g.cache.value? key = none)
    (uses : List Use) :
    (runAll serve uses f).1 = (runAll Uncached.serve uses s).1 ∧
      (runAll serve uses g).1 = (runAll Uncached.serve uses s).1 ∧
      laws.contents (runAll serve uses f).2.store.store =
        laws.contents (runAll Uncached.serve uses s).2.store ∧
      laws.contents (runAll serve uses g).2.store.store =
        laws.contents (runAll Uncached.serve uses s).2.store ∧
      (∀ f' ∈ statesOfAll uses f, f'.Coherent laws.refusing) ∧
      ∀ g' ∈ statesOfAll uses g, g'.Coherent laws.refusing := by
  subst on
  have start : Follows laws.refusing f f.store := follows_of_fresh sound fresh
  have start' : Follows laws.refusing g f.store := by
    rw [← on']
    refine follows_of_fresh ?_ fresh'
    rw [on']
    exact sound
  obtain ⟨same, last⟩ := runAll_follows start uses
  obtain ⟨same', last'⟩ := runAll_follows start' uses
  exact ⟨same, same', last.contents, last'.contents,
    fun f' mem => coherent_of_mem_statesOfAll start mem,
    fun g' mem => coherent_of_mem_statesOfAll start' mem⟩

/-- A memory store holds a value that is no text, and its second write is refused. Behind a cache with
one place, as behind one that keeps everything, the text that was written first is read. -/
theorem cache_changes_nothing_when_refused :
    ∃ f g : FieldStore (Refusing Memory), f.cache.size = 0 ∧ g.cache.size = 0 ∧
      f.store.refusal 1 = some (.storage "refused") ∧
      (runAll serve [.call (Script.put "a" "1"), .call (Script.put "a" "2"),
          .call (Script.get "a"), .clearCache, .call (Script.get "bad")] f).1 =
        [⟨Unit, .ok ()⟩, ⟨Unit, .error (.error (.storage "refused"))⟩,
          ⟨Option String, .ok (some "1")⟩, ⟨Unit, .ok ()⟩,
          ⟨Option String, .error (.error (.corruptValue "bad" (.utf8 (.invalid 0 1))))⟩] ∧
      (runAll serve [.call (Script.put "a" "1"), .call (Script.put "a" "2"),
          .call (Script.get "a"), .clearCache, .call (Script.get "bad")] g).1 =
        (runAll serve [.call (Script.put "a" "1"), .call (Script.put "a" "2"),
          .call (Script.get "a"), .clearCache, .call (Script.get "bad")] f).1 := by
  let s : Refusing Memory :=
    { store := Memory.empty.put "bad".toUTF8 ⟨#[0xff]⟩
      refusal := fun n => if n = 1 then some (.storage "refused") else none }
  obtain ⟨same, same', -⟩ := cache_changes_nothing StoreLaws.memory (s := s) trivial
    (f := { store := s, cache := .lru { capacity := 1, capacity_pos := Nat.one_pos } })
    (g := { store := s, clearThreshold := 0 }) rfl rfl (fun _ => Std.TreeMap.getElem?_emptyc)
    (fun _ => Std.TreeMap.getElem?_emptyc) [.call (Script.put "a" "1"), .call (Script.put "a" "2"),
      .call (Script.get "a"), .clearCache, .call (Script.get "bad")]
  refine ⟨_, _, rfl, rfl, rfl, same.trans ?_, same'.trans same.symm⟩
  cbv

end FieldStore

end FlatStore
