import FlatStore.Proofs.Accesses
import FlatStore.Proofs.Cache.Recency
import FlatStore.Proofs.Disk
import FlatStore.Proofs.Uncached
import FlatStore.Settings

/-! # What a field store counts

    A field store keeps its cache within the clear threshold, and a bounded
    cache keeps itself within its capacity. Both hold beside the counts of hits
    and misses, which are told apart by what reaches the byte store:

    * **Metered stores** pass every call on and keep a list of those that they
      were asked for, whether they succeeded or not (`Metered`).
    * **Accesses** are the reads and writes that the uses of a run make on the
      field store, as far as they get (`accessesOfAll`).
    * **Step**: a read and a write keep the accounts, whether they end early or
      not (`Accounted.get`, `Accounted.put`), and so does every run
      (`Accounted.runAll`).
-/

namespace FlatStore

/-! ### Metered stores -/

/-- A byte store with the calls that it was asked for, first ones first. -/
structure Metered (σ : Type) where
  store : σ
  reads : List Bytes := []
  writes : List (Bytes × Bytes) := []

namespace Metered

variable {σ α : Type}

/-- Pass a call on to the store. -/
def forward (call : EStateM Error σ α) : EStateM Error (Metered σ) α := fun m =>
  match call m.store with
  | .ok a store => .ok a { m with store }
  | .error e store => .error e { m with store }

instance [ByteStore σ] : ByteStore (Metered σ) where
  read key := fun m => forward (ByteStore.read key) { m with reads := m.reads ++ [key] }
  write key value := fun m =>
    forward (ByteStore.write key value) { m with writes := m.writes ++ [(key, value)] }
  flush := forward ByteStore.flush

/-- The store behind the meter changes, and nothing else. -/
theorem meets_forward (call : EStateM Error σ α) (m : Metered σ) :
    Meets (fun _ m' => m'.reads = m.reads ∧ m'.writes = m.writes)
      (fun _ m' => m'.reads = m.reads ∧ m'.writes = m.writes) (forward call m) := by
  unfold forward
  cases call m.store with
  | ok a store => exact ⟨rfl, rfl⟩
  | error e store => exact ⟨rfl, rfl⟩

end Metered

/-! ### Caches of a policy -/

namespace Cache

variable {policy : CachePolicy} {c c' : Cache} {key value : String} {capacity : Nat}

/-- The cache is one of the policy, and its structures agree. -/
def Follows : CachePolicy → Cache → Prop
  | .perpetual, perpetual _ => True
  | .lru capacity, lru c => c.Sound ∧ c.capacity = capacity
  | _, _ => False

theorem Follows.of_emptyCache {s : Settings} (made : s.emptyCache = .ok c) :
    Follows s.cache c ∧ c.size = 0 := by
  unfold Settings.emptyCache at made
  cases policy : s.cache with
  | perpetual =>
    rw [policy] at made
    cases made
    exact ⟨trivial, Std.TreeMap.size_emptyc⟩
  | lru capacity =>
    simp only [policy] at made
    cases start : Lru.ofCapacity? capacity with
    | none =>
      rw [start] at made
      cases made
    | some lru =>
      rw [start] at made
      cases made
      obtain ⟨sound, room, -⟩ := (Lru.Reachable.start start).sound
      refine ⟨⟨sound, room⟩, ?_⟩
      rw [Lru.ofCapacity?, Option.dite_none_right_eq_some] at start
      obtain ⟨_, start⟩ := start
      cases start
      show (∅ : Std.TreeMap String String).size = 0
      exact Std.TreeMap.size_emptyc

theorem Follows.set (h : Follows policy c) (key value : String) :
    Follows policy (c.set key value) := by
  cases policy with
  | perpetual =>
    cases c with
    | perpetual entries => trivial
    | lru c => exact h.elim
  | lru capacity =>
    cases c with
    | perpetual entries => exact h.elim
    | lru c => exact ⟨h.1.set key value, (h.1.capacity_set key value).trans h.2⟩

theorem Follows.clear (h : Follows policy c) : Follows policy c.clear := by
  cases policy with
  | perpetual =>
    cases c with
    | perpetual entries => trivial
    | lru c => exact h.elim
  | lru capacity =>
    cases c with
    | perpetual entries => exact h.elim
    | lru c => exact ⟨h.1.apply .clear, (h.1.capacity_apply .clear).trans h.2⟩

/-- A hit only moves the key to the front. -/
theorem Follows.hit (h : Follows policy c) (found : c.get? key = some (value, c')) :
    Follows policy c' ∧ c'.size = c.size := by
  cases c with
  | perpetual entries =>
    simp only [get?, Option.map_eq_some_iff, Prod.mk.injEq] at found
    obtain ⟨_, _, rfl, rfl⟩ := found
    exact ⟨h, rfl⟩
  | lru c =>
    cases policy with
    | perpetual => exact h.elim
    | lru capacity =>
      simp only [get?, Lru.get?, Option.map_eq_some_iff, Prod.mk.injEq, Prod.exists] at found
      obtain ⟨_, _, ⟨_, there, rfl, rfl⟩, rfl, rfl⟩ := found
      have mem : key ∈ c.recency := by
        rw [h.1.same, Std.TreeMap.mem_iff_isSome_getElem?, there]
        rfl
      exact ⟨⟨h.1.touch mem, h.2⟩, rfl⟩

/-- A bounded cache is within its capacity. -/
theorem Follows.size_le (h : Follows (.lru capacity) c) : c.size ≤ capacity := by
  cases c with
  | perpetual entries => exact h.elim
  | lru c =>
    obtain ⟨sound, rfl⟩ := h
    exact sound.size_eq.trans_le sound.within

theorem size_clear (c : Cache) : c.clear.size = 0 := by
  cases c with
  | perpetual entries | lru c =>
    show (∅ : Std.TreeMap String String).size = 0
    exact Std.TreeMap.size_emptyc

end Cache

namespace FieldStore

/-! ### Accesses -/

/-- What the call writes to the byte store. -/
def Access.written? : Access → Option (Bytes × Bytes)
  | get _ => none
  | put key value => some (key.toUTF8, value.toUTF8)

section Traces

variable {σ : Type} [ByteStore σ]

/-- The reads and writes of a use. -/
def accessesOf : Use → FieldStore σ → List Access
  | .call s, f => accesses s f
  | .clearCache, _ => []
  | .flush, _ => []

/-- The reads and writes of a run. -/
def accessesOfAll : List Use → FieldStore σ → List Access
  | [], _ => []
  | u :: uses, f => accessesOf u f ++ accessesOfAll uses (leftBy (serve u f))

end Traces

/-! ### The accounts -/

variable {σ α : Type} {s : Settings} {past : List Access} {f : FieldStore (Metered σ)}

/-- What holds of a field store that was opened with the settings, and has had these accesses. -/
structure Accounted (s : Settings) (past : List Access) (f : FieldStore (Metered σ)) : Prop where
  policy : f.cache.Follows s.cache
  threshold : f.clearThreshold = s.clearThreshold
  within : f.cache.size ≤ s.clearThreshold
  unhurt : ∀ capacity, s.cache = .lru capacity → capacity ≤ s.clearThreshold →
    f.thresholdClears = 0
  asked : f.hits + f.misses = past.countP Access.isGet
  missed : f.store.reads.length = f.misses
  written : f.store.writes = past.filterMap Access.written?

namespace Accounted

/-- The threshold is looked at behind every text that is cached, so it is kept whatever the cache
held before; a bounded cache that fits below it is never emptied for it. -/
theorem remember (key value : String) (policy : f.cache.Follows s.cache)
    (threshold : f.clearThreshold = s.clearThreshold)
    (unhurt : ∀ capacity, s.cache = .lru capacity → capacity ≤ s.clearThreshold →
      f.thresholdClears = 0)
    (asked : f.hits + f.misses = past.countP Access.isGet)
    (missed : f.store.reads.length = f.misses)
    (written : f.store.writes = past.filterMap Access.written?) :
    Accounted s past (f.remember key value) := by
  have follows := policy.set key value
  unfold FieldStore.remember enforceThreshold
  split
  · next above =>
    refine ⟨follows.clear, threshold, ?_, ?_, asked, missed, written⟩
    · rw [Cache.size_clear]
      exact Nat.zero_le _
    · -- A cache within its capacity cannot have grown above the threshold.
      intro capacity bounded room
      rw [bounded] at follows
      have small := follows.size_le
      rw [threshold] at above
      exact absurd (small.trans room) (Nat.not_le_of_gt above)
  · next below =>
    refine ⟨follows, threshold, ?_, unhurt, asked, missed, written⟩
    rw [← threshold]
    exact Nat.not_lt.1 below

theorem clearCache (h : Accounted s past f) : Accounted s past f.clearCache := by
  refine ⟨h.policy.clear, h.threshold, ?_, h.unhurt, h.asked, h.missed, h.written⟩
  show f.cache.clear.size ≤ s.clearThreshold
  rw [Cache.size_clear]
  exact Nat.zero_le _

variable [ByteStore σ]

/-- A read is a hit, or a miss that asks the byte store once. -/
theorem get (h : Accounted s past f) (key : String) :
    Accounted s (past ++ [Access.get key]) (leftBy (FieldStore.get key f)) := by
  have counted : (past ++ [Access.get key]).countP Access.isGet = past.countP Access.isGet + 1 := by
    rw [List.countP_append]
    rfl
  have silent : (past ++ [Access.get key]).filterMap Access.written? =
      past.filterMap Access.written? := by
    rw [List.filterMap_append]
    exact List.append_nil _
  have asked := h.asked
  unfold FieldStore.get
  cases hit : f.cache.get? key with
  | some found =>
    obtain ⟨value, cache⟩ := found
    obtain ⟨follows, size⟩ := h.policy.hit hit
    refine ⟨follows, h.threshold, ?_, h.unhurt, ?_, h.missed, ?_⟩
    · exact size.trans_le h.within
    · show f.hits + 1 + f.misses = _
      omega
    · rw [silent]
      exact h.written
  | none =>
    have forwarded := Metered.meets_forward (ByteStore.read key.toUTF8)
      { f.store with reads := f.store.reads ++ [key.toUTF8] }
    -- Whatever the byte store gives, it was asked for one key more.
    have behind : ∀ store : Metered σ, store.reads = f.store.reads ++ [key.toUTF8] ∧
        store.writes = f.store.writes →
        store.reads.length = f.misses + 1 ∧
          store.writes = (past ++ [Access.get key]).filterMap Access.written? := by
      rintro store ⟨reads, writes⟩
      refine ⟨?_, ?_⟩
      · rw [reads, List.length_append, h.missed]
        rfl
      · rw [writes, silent]
        exact h.written
    have more : f.hits + (f.misses + 1) = (past ++ [Access.get key]).countP Access.isGet := by omega
    simp only
    cases run : (ByteStore.read key.toUTF8 : EStateM Error (Metered σ) _) f.store with
    | error e store =>
      obtain ⟨missed, written⟩ := behind store (forwarded.of_error run)
      exact ⟨h.policy, h.threshold, h.within, h.unhurt, more, missed, written⟩
    | ok found store =>
      obtain ⟨missed, written⟩ := behind store (forwarded.of_ok run)
      cases found with
      | none => exact ⟨h.policy, h.threshold, h.within, h.unhurt, more, missed, written⟩
      | some bytes =>
        simp only
        cases Utf8.decode bytes with
        | error fault => exact ⟨h.policy, h.threshold, h.within, h.unhurt, more, missed, written⟩
        | ok value =>
          exact remember key value (f := { f with misses := f.misses + 1, store }) h.policy
            h.threshold h.unhurt more missed written

/-- A write is one write of the byte store, also when that fails. -/
theorem put (h : Accounted s past f) (key value : String) :
    Accounted s (past ++ [Access.put key value]) (leftBy (FieldStore.put key value f)) := by
  have asked : f.hits + f.misses = (past ++ [Access.put key value]).countP Access.isGet := by
    rw [List.countP_append, h.asked]
    rfl
  have forwarded := Metered.meets_forward (ByteStore.write key.toUTF8 value.toUTF8)
    { f.store with writes := f.store.writes ++ [(key.toUTF8, value.toUTF8)] }
  have behind : ∀ store : Metered σ, store.reads = f.store.reads ∧
      store.writes = f.store.writes ++ [(key.toUTF8, value.toUTF8)] →
      store.reads.length = f.misses ∧
        store.writes = (past ++ [Access.put key value]).filterMap Access.written? := by
    rintro store ⟨reads, writes⟩
    refine ⟨?_, ?_⟩
    · rw [reads]
      exact h.missed
    · rw [writes, h.written, List.filterMap_append]
      rfl
  unfold FieldStore.put
  cases run : (ByteStore.write key.toUTF8 value.toUTF8 : EStateM Error (Metered σ) _) f.store with
  | error e store =>
    obtain ⟨missed, written⟩ := behind store (forwarded.of_error run)
    exact ⟨h.policy, h.threshold, h.within, h.unhurt, asked, missed, written⟩
  | ok _ store =>
    obtain ⟨missed, written⟩ := behind store (forwarded.of_ok run)
    exact remember key value (f := { f with store }) h.policy h.threshold h.unhurt asked missed
      written

theorem flush (h : Accounted s past f) : Accounted s past (leftBy (FieldStore.flush f)) := by
  have forwarded := Metered.meets_forward (ByteStore.flush : EStateM Error σ Unit) f.store
  have behind : ∀ store : Metered σ, store.reads = f.store.reads ∧
      store.writes = f.store.writes → Accounted s past { f with store } := by
    rintro store ⟨reads, writes⟩
    refine ⟨h.policy, h.threshold, h.within, h.unhurt, h.asked, ?_, writes.trans h.written⟩
    show store.reads.length = f.misses
    rw [reads]
    exact h.missed
  unfold FieldStore.flush
  cases run : (ByteStore.flush : EStateM Error (Metered σ) Unit) f.store with
  | error e store => exact behind store (forwarded.of_error run)
  | ok _ store => exact behind store (forwarded.of_ok run)

/-! ### Runs -/

theorem perform (h : Accounted s past f) (script : Script α) :
    Accounted s (past ++ accesses script f) (leftBy (FieldStore.perform script f)) := by
  induction script generalizing past f with
  | done result | fail failure =>
    show Accounted s (past ++ []) f
    rw [List.append_nil]
    exact h
  | read key next ih =>
    have read := h.get key
    unfold accesses FieldStore.perform
    cases run : FieldStore.get key f with
    | error e f₁ =>
      rw [run] at read
      exact read
    | ok found f₁ =>
      rw [run] at read
      have rest := ih found read
      rw [List.append_assoc] at rest
      exact rest
  | write key value next ih =>
    have wrote := h.put key value
    unfold accesses FieldStore.perform
    cases run : FieldStore.put key value f with
    | error e f₁ =>
      rw [run] at wrote
      exact wrote
    | ok _ f₁ =>
      rw [run] at wrote
      have rest := ih wrote
      rw [List.append_assoc] at rest
      exact rest

theorem serve (h : Accounted s past f) (u : Use) :
    Accounted s (past ++ accessesOf u f) (leftBy (FieldStore.serve u f)) := by
  cases u with
  | call script => exact h.perform script
  | clearCache =>
    show Accounted s (past ++ []) f.clearCache
    rw [List.append_nil]
    exact h.clearCache
  | flush =>
    have flushed := h.flush
    show Accounted s (past ++ []) (leftBy (failing FieldStore.flush f))
    rw [List.append_nil]
    unfold failing
    cases run : FieldStore.flush f with
    | ok _ f₁ | error _ f₁ =>
      rw [run] at flushed
      exact flushed

theorem runAll (h : Accounted s past f) (uses : List Use) :
    Accounted s (past ++ accessesOfAll uses f) (FlatStore.runAll FieldStore.serve uses f).2 := by
  induction uses generalizing past f with
  | nil =>
    show Accounted s (past ++ []) f
    rw [List.append_nil]
    exact h
  | cons u uses ih =>
    have rest := ih (h.serve u)
    rw [List.append_assoc] at rest
    unfold FlatStore.runAll
    cases run : FieldStore.serve u f with
    | ok a f₁ | error e f₁ =>
      simp only [accessesOfAll, run] at rest ⊢
      exact rest

end Accounted

/-- Whatever the policy of the cache and the clear threshold are, and whichever calls of the byte
store fail: behind every run, the entries that are cached are no more than the threshold and, in a
bounded cache, no more than the capacity. Hits and misses are together the reads that were made,
misses are the reads that the byte store was asked for, and the writes that it was asked for are
those that were made, one for each. A bounded cache that fits below the threshold is never emptied
for it. -/
theorem cache_stays_within_bounds [ByteStore σ] {cache : Cache}
    (made : s.emptyCache = .ok cache) (store : σ)
    {start : FieldStore (Metered σ)}
    (opened : start = { store := { store }, cache, clearThreshold := s.clearThreshold })
    (uses : List Use) :
    (FlatStore.runAll FieldStore.serve uses start).2.cache.size ≤ s.clearThreshold ∧
    (∀ capacity, s.cache = .lru capacity →
      (FlatStore.runAll FieldStore.serve uses start).2.cache.size ≤ capacity ∧
      (capacity ≤ s.clearThreshold →
        (FlatStore.runAll FieldStore.serve uses start).2.thresholdClears = 0)) ∧
    (FlatStore.runAll FieldStore.serve uses start).2.hits +
        (FlatStore.runAll FieldStore.serve uses start).2.misses =
      (accessesOfAll uses start).countP Access.isGet ∧
    (FlatStore.runAll FieldStore.serve uses start).2.misses =
      (FlatStore.runAll FieldStore.serve uses start).2.store.reads.length ∧
    (FlatStore.runAll FieldStore.serve uses start).2.store.writes =
      (accessesOfAll uses start).filterMap Access.written? := by
  obtain ⟨policy, empty⟩ := Cache.Follows.of_emptyCache made
  have first : Accounted s [] start := by
    rw [opened]
    exact ⟨policy, rfl, empty.trans_le (Nat.zero_le _), fun _ _ _ => rfl, rfl, rfl, rfl⟩
  have last := first.runAll uses
  refine ⟨last.within, ?_, last.asked, last.missed.symm, last.written⟩
  intro capacity bounded
  refine ⟨?_, last.unhurt capacity bounded⟩
  have follows := last.policy
  rw [bounded] at follows
  exact follows.size_le

/-- With one place in the cache: a text that was written is a hit, until another one takes its
place; an absent field and a value that is no text are misses each time. -/
theorem counts_with_one_place :
    ∃ (cache : Cache) (start last : FieldStore (Metered Memory)),
      ({ cache := .lru 1, clearThreshold := 1 } : Settings).emptyCache = .ok cache ∧
      start = { store := { store := Memory.empty.put "bad".toUTF8 ⟨#[0xff]⟩ }, cache,
                clearThreshold := 1 } ∧
      (FlatStore.runAll FieldStore.serve
        [.call (Script.put "a" "1"), .call (Script.get "a"), .call (Script.put "b" "2"),
          .call (Script.get "a"), .call (Script.get "c"), .call (Script.get "bad")] start).2 = last ∧
      last.hits + last.misses = 4 ∧ last.misses = last.store.reads.length ∧
      last.store.writes = [("a".toUTF8, "1".toUTF8), ("b".toUTF8, "2".toUTF8)] ∧
      last.thresholdClears = 0 := by
  have made : ({ cache := .lru 1, clearThreshold := 1 } : Settings).emptyCache =
      .ok (.lru { capacity := 1, capacity_pos := Nat.one_pos }) := rfl
  obtain ⟨-, bounded, asked, missed, written⟩ := cache_stays_within_bounds made
    (Memory.empty.put "bad".toUTF8 ⟨#[0xff]⟩) rfl
    [.call (Script.put "a" "1"), .call (Script.get "a"), .call (Script.put "b" "2"),
      .call (Script.get "a"), .call (Script.get "c"), .call (Script.get "bad")]
  refine ⟨_, _, _, made, rfl, rfl, asked.trans ?_, missed, written.trans ?_,
    (bounded 1 rfl).2 le_rfl⟩
  · cbv
  · cbv

end FieldStore

end FlatStore
