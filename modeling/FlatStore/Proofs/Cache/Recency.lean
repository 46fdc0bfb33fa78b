import FlatStore.Cache.Lru
import FlatStore.Proofs.Coherence
import Mathlib.Data.Finset.Dedup
import Mathlib.Data.Finset.Card

/-! # What a bounded cache keeps

    A run makes an empty cache and gives it one call after the other. Beside
    the cache, a run carries what the calls did to its keys, latest first, and
    how many entries left the cache otherwise than by being removed or cleared.

    * **Agreement**: the map and the recency list hold the same keys, each once,
      and no more than there is room for; a `set` drives out one entry at most
      (`Sound.apply`).
    * **Order**: while nothing is removed, the recency list begins the list of
      all keys touched since the last clear, ordered by when they were last
      touched (`Recent.apply`).
    * `residency_follows_touches`: so a key is cached exactly when it was set
      since the last clear and fewer other keys than the capacity were touched
      since its own last touch.
-/

namespace FlatStore.Lru

/-! ### Calls and what they do -/

/-- A call of a bounded cache. -/
inductive Move where
  | get (key : String)
  | set (key value : String)
  | contains (key : String)
  | clear
  | remove (key : String)

/-- What a call did to the keys of a cache. -/
inductive Event where
  | set (key value : String)
  /-- The key was asked for and found. -/
  | hit (key : String)
  | cleared
  | removed (key : String)
  deriving DecidableEq

/-- How many keys of one cache are not in another. -/
def missing (c c' : Lru) : Nat := c.entries.keys.countP fun key => !c'.contains key

namespace Move

/-- The cache after a call. -/
def apply (c : Lru) : Move → Lru
  | get key =>
    match c.get? key with
    | some (_, c) => c
    | none => c
  | set key value => c.set key value
  | contains _ => c
  | clear => c.clear
  | remove key => (c.remove key).2

/-- What the call does to the keys; a miss does nothing, nor does a look without promotion. -/
def event? (c : Lru) : Move → Option Event
  | get key => if (c.get? key).isSome then some (.hit key) else none
  | set key value => some (.set key value)
  | contains _ => none
  | clear => some .cleared
  | remove key => some (.removed key)

/-- The number of entries that leave the cache otherwise than by being removed or cleared. -/
def evicted (c : Lru) : Move → Nat
  | clear | remove _ => 0
  | get key => c.missing ((get key).apply c)
  | set key value => c.missing ((set key value).apply c)
  | contains key => c.missing ((contains key).apply c)

end Move

/-- Caches that some run leads to, with what its calls did, latest first, and the number of entries
that were driven out. -/
inductive Reachable (capacity : Nat) : List Event → Nat → Lru → Prop where
  | start {c : Lru} (made : ofCapacity? capacity = some c) : Reachable capacity [] 0 c
  | step {past : List Event} {driven : Nat} {c : Lru} (m : Move)
      (h : Reachable capacity past driven c) :
      Reachable capacity ((m.event? c).toList ++ past) (driven + m.evicted c) (m.apply c)

/-! ### Reading the past -/

/-- The key that a call touched: one that was set, or asked for and found. -/
def Event.touched? : Event → Option String
  | set key _ | hit key => some key
  | cleared | removed _ => none

/-- The value that a call set under the key. -/
def Event.value? (key : String) : Event → Option String
  | set key' value => if key' = key then some value else none
  | hit _ | cleared | removed _ => none

/-- What was done since the last clear. -/
def sinceClear (past : List Event) : List Event := past.takeWhile (· ≠ .cleared)

/-- The keys touched since the last clear, latest first. -/
def touched (past : List Event) : List String := (sinceClear past).filterMap Event.touched?

/-- The value last set under a key since the last clear. -/
def lastValue? (past : List Event) (key : String) : Option String :=
  (sinceClear past).findSome? (Event.value? key)

/-- The other keys that were touched since the last touch of a key. -/
def touchedAfter (past : List Event) (key : String) : Finset String :=
  ((touched past).takeWhile (· ≠ key)).toFinset

/-! ### Keys by recency -/

/-- The keys of a list of touches, latest first, each where it was touched last. -/
def byRecency : List String → List String
  | [] => []
  | key :: earlier => key :: (byRecency earlier).erase key

theorem mem_byRecency {touches : List String} {key : String} :
    key ∈ byRecency touches ↔ key ∈ touches := by
  induction touches with
  | nil => rfl
  | cons first earlier ih =>
    rw [byRecency, List.mem_cons, List.mem_cons]
    by_cases same : key = first
    · simp [same]
    · rw [List.mem_erase_of_ne same, ih]

theorem nodup_byRecency (touches : List String) : (byRecency touches).Nodup := by
  induction touches with
  | nil => exact List.nodup_nil
  | cons first earlier ih => exact List.nodup_cons.2 ⟨ih.not_mem_erase, ih.erase first⟩

/-- Each key stands there once, so they can be counted. -/
theorem length_byRecency (touches : List String) :
    (byRecency touches).length = touches.toFinset.card := by
  rw [← List.toFinset_card_of_nodup (nodup_byRecency touches)]
  congr 1
  ext key
  rw [List.mem_toFinset, List.mem_toFinset, mem_byRecency]

/-- What stands in front of a key is not moved by taking out another one. -/
theorem takeWhile_erase {key other : String} (differ : other ≠ key) (keys : List String) :
    (keys.erase other).takeWhile (· ≠ key) = (keys.takeWhile (· ≠ key)).erase other := by
  induction keys with
  | nil => rfl
  | cons first rest ih =>
    by_cases out : first = other
    · subst out
      simp [differ]
    · by_cases stop : first = key
      · subst stop
        simp [out]
      · simpa [out, stop] using ih

/-- In front of a key stand the keys that were touched behind its last touch. -/
theorem takeWhile_byRecency (touches : List String) (key : String) :
    (byRecency touches).takeWhile (· ≠ key) = byRecency (touches.takeWhile (· ≠ key)) := by
  induction touches with
  | nil => rfl
  | cons first earlier ih =>
    by_cases same : first = key
    · simp [byRecency, same]
    · rw [byRecency, List.takeWhile_cons_of_pos (by simpa using same),
        List.takeWhile_cons_of_pos (by simpa using same), byRecency, takeWhile_erase same, ih]

/-- A key is among the first few just if fewer stand in front of it. -/
theorem mem_take_iff {keys : List String} {key : String} {n : Nat} :
    key ∈ keys.take n ↔ key ∈ keys ∧ (keys.takeWhile (· ≠ key)).length < n := by
  induction keys generalizing n with
  | nil => simp
  | cons first rest ih =>
    cases n with
    | zero => simp
    | succ n =>
      by_cases same : first = key
      · simp [same]
      · have other : key ≠ first := Ne.symm same
        simp [same, other, ih]

/-- Of a list that is cut off, one key more is needed when one is taken out. -/
theorem take_erase (keys : List String) (key : String) (n : Nat) :
    (keys.erase key).take n = ((keys.take (n + 1)).erase key).take n := by
  induction keys generalizing n with
  | nil => simp
  | cons first rest ih =>
    by_cases same : first = key
    · simp [same]
    · cases n with
      | zero => simp
      | succ n => simpa [same] using ih n

/-! ### The two structures agree -/

variable {c : Lru} {key value : String} {past : List Event} {capacity driven : Nat}

/-- The map and the recency list hold the same keys, and no more than there is room for. -/
structure Sound (c : Lru) : Prop where
  distinct : c.recency.Nodup
  same : ∀ key, key ∈ c.recency ↔ key ∈ c.entries
  within : c.recency.length ≤ c.capacity

namespace Sound

theorem perm (h : c.Sound) : c.entries.keys.Perm c.recency := by
  refine (List.perm_ext_iff_of_nodup Std.TreeMap.nodup_keys h.distinct).2 fun key => ?_
  rw [Std.TreeMap.mem_keys, h.same]

theorem size_eq (h : c.Sound) : c.size = c.recency.length := by
  rw [size, ← Std.TreeMap.length_keys, h.perm.length_eq]

theorem contains_iff (h : c.Sound) : c.contains key = true ↔ key ∈ c.recency :=
  Std.TreeMap.contains_iff_mem.trans (h.same key).symm

/-! #### Driving out -/

theorem recency_evict (c : Lru) : c.evict.recency = c.recency.dropLast := by
  unfold evict
  split
  · next none_left => rw [List.getLast?_eq_none_iff.1 none_left, List.dropLast_nil]
  · rfl

theorem capacity_evict (c : Lru) : c.evict.capacity = c.capacity := by
  unfold evict
  split <;> rfl

/-- The key at the back leaves both structures. -/
theorem evict (h : c.Sound) : c.evict.Sound where
  distinct := by
    rw [recency_evict]
    exact h.distinct.sublist (List.dropLast_sublist _)
  same key := by
    unfold Lru.evict
    split
    · exact h.same key
    · next victim at_back =>
      have split_off : c.recency.dropLast ++ [victim] = c.recency :=
        List.dropLast_append_getLast? victim at_back
      have apart : victim ∉ c.recency.dropLast := by
        have distinct := h.distinct
        rw [← split_off, List.nodup_append] at distinct
        exact fun mem => distinct.2.2 victim mem victim (List.mem_singleton.2 rfl) rfl
      rw [Std.TreeMap.mem_erase, ← h.same, ← split_off]
      by_cases same : key = victim
      · subst same
        simp [apart]
      · simp [same, Ne.symm same]
  within := by
    rw [recency_evict, capacity_evict, List.length_dropLast]
    exact (Nat.sub_le _ _).trans h.within

end Sound

/-- Where there is room, nothing is driven out. -/
theorem makeRoom_of_room (room : c.size < c.capacity) (n : Nat) : c.makeRoom n = c := by
  cases n with
  | zero => rfl
  | succ n => rw [makeRoom, if_pos room]

namespace Sound

/-- One key at most is driven out to make room. -/
theorem makeRoom_eq (h : c.Sound) :
    c.makeRoom c.size = if c.size < c.capacity then c else c.evict := by
  cases entries : c.size with
  | zero => rw [makeRoom, if_pos c.capacity_pos]
  | succ n =>
    have fewer : c.evict.size < c.evict.capacity := by
      have size := h.size_eq
      have within := h.within
      rw [h.evict.size_eq, recency_evict, List.length_dropLast, capacity_evict]
      omega
    rw [makeRoom, makeRoom_of_room fewer, entries]

theorem makeRoom (h : c.Sound) : (c.makeRoom c.size).Sound := by
  rw [h.makeRoom_eq]
  split
  · exact h
  · exact h.evict

theorem capacity_makeRoom (h : c.Sound) : (c.makeRoom c.size).capacity = c.capacity := by
  rw [h.makeRoom_eq]
  split
  · rfl
  · exact capacity_evict c

/-- What is left are the most recently used keys, one fewer than the capacity. -/
theorem recency_makeRoom (h : c.Sound) :
    (c.makeRoom c.size).recency = c.recency.take (c.capacity - 1) := by
  have size := h.size_eq
  have within := h.within
  rw [h.makeRoom_eq]
  split
  · exact (List.take_of_length_le (by omega)).symm
  · rw [recency_evict, List.dropLast_eq_take]
    congr 1
    omega

/-! #### Touching -/

/-- A hit moves the key to the front. -/
theorem recency_touch (h : c.Sound) (there : key ∈ c.recency) :
    (c.touch key).recency = key :: (c.recency.erase key).take (c.capacity - 1) := by
  have within := h.within
  have short : (c.recency.erase key).length ≤ c.capacity - 1 := by
    rw [List.length_erase_of_mem there]
    omega
  rw [List.take_of_length_le short]
  rfl

theorem touch (h : c.Sound) (there : key ∈ c.recency) : (c.touch key).Sound := by
  have moved : (c.touch key).recency.Perm c.recency := (List.perm_cons_erase there).symm
  exact ⟨moved.nodup_iff.2 h.distinct, fun key' => moved.mem_iff.trans (h.same key'),
    moved.length_eq.trans_le h.within⟩

/-- A `set` brings the key to the front, whether it was cached or is new. -/
theorem recency_set (h : c.Sound) (key value : String) :
    (c.set key value).recency = key :: (c.recency.erase key).take (c.capacity - 1) := by
  unfold Lru.set
  split
  · next there => exact h.recency_touch (h.contains_iff.1 there)
  · next absent =>
    have apart : key ∉ c.recency := fun mem => absent (h.contains_iff.2 mem)
    show key :: (c.makeRoom c.size).recency = _
    rw [h.recency_makeRoom, List.erase_of_not_mem apart]

theorem capacity_set (h : c.Sound) (key value : String) :
    (c.set key value).capacity = c.capacity := by
  unfold Lru.set
  split
  · rfl
  · exact h.capacity_makeRoom

theorem set (h : c.Sound) (key value : String) : (c.set key value).Sound where
  distinct := by
    rw [h.recency_set]
    refine List.nodup_cons.2 ⟨?_, (h.distinct.erase key).sublist (List.take_sublist _ _)⟩
    exact fun mem => h.distinct.not_mem_erase (List.mem_of_mem_take mem)
  same key' := by
    -- Both ways of setting end with an insertion into the map and a push onto the list.
    have pushed : ∀ c' : Lru, c'.Sound → ∀ keys : List String,
        (key' ∈ keys ↔ key' = key ∨ key' ∈ c'.recency) →
        (key' ∈ keys ↔ key' ∈ c'.entries.insert key value) := by
      intro c' sound keys mem
      rw [mem, sound.same, Std.TreeMap.mem_insert, Std.LawfulEqCmp.compare_eq_iff_eq, eq_comm]
    unfold Lru.set
    split
    · next there =>
      have there := h.contains_iff.1 there
      refine pushed c h (key :: c.recency.erase key) ?_
      rw [(List.perm_cons_erase there).symm.mem_iff]
      exact ⟨Or.inr, fun mem => mem.elim (fun same => same ▸ there) id⟩
    · exact pushed _ h.makeRoom _ List.mem_cons
  within := by
    have positive := c.capacity_pos
    rw [h.recency_set, h.capacity_set, List.length_cons, List.length_take]
    omega

/-- What is cached behind a `set` has the value that was set, or the one that it had. -/
theorem entries_set (h : c.Sound) {key' : String} (there : key' ∈ (c.set key value).recency) :
    (c.set key value).entries[key']? = if key' = key then some value else c.entries[key']? := by
  obtain ⟨value', found⟩ : ∃ value', (c.set key value).entries[key']? = some value' := by
    rw [(h.set key value).same, Std.TreeMap.mem_iff_isSome_getElem?] at there
    exact Option.isSome_iff_exists.1 there
  rcases Cache.value?_set (c := .lru c) found with ⟨rfl, rfl⟩ | ⟨other, before⟩
  · rw [found, if_pos rfl]
  · rw [found, if_neg other]
    exact before.symm

/-! #### Counting what leaves -/

theorem missing_eq {c' : Lru} (h : c.Sound) (h' : c'.Sound) :
    c.missing c' = c.recency.countP fun key => key ∉ c'.recency := by
  rw [missing, h.perm.countP_eq]
  refine List.countP_congr fun key _ => ?_
  rw [decide_eq_true_iff, ← h'.contains_iff, Bool.not_eq_true', Bool.not_eq_true]

/-- Where every key stays, none is missing. -/
theorem missing_eq_zero {c' : Lru} (h : c.Sound) (h' : c'.Sound)
    (stay : ∀ key ∈ c.recency, key ∈ c'.recency) : c.missing c' = 0 := by
  rw [h.missing_eq h', List.countP_eq_zero]
  exact fun key mem => by simpa using stay key mem

/-- Setting a key that is cached only moves it to the front. -/
theorem missing_set_of_mem (h : c.Sound) (value : String) (there : key ∈ c.recency) :
    c.missing (c.set key value) = 0 := by
  refine h.missing_eq_zero (h.set key value) ?_
  intro key' mem
  rw [h.recency_set, ← h.recency_touch there]
  exact (List.perm_cons_erase there).mem_iff.1 mem

/-- Where there is room for a new key, every other one stays. -/
theorem missing_set_of_room (h : c.Sound) (value : String) (absent : key ∉ c.recency)
    (room : c.size < c.capacity) : c.missing (c.set key value) = 0 := by
  have size := h.size_eq
  refine h.missing_eq_zero (h.set key value) ?_
  intro key' mem
  rw [h.recency_set, List.erase_of_not_mem absent, List.take_of_length_le (by omega)]
  exact List.mem_cons_of_mem key mem

/-- A new key in a full cache drives out the one at the back, and no other. -/
theorem missing_set_of_full (h : c.Sound) (value : String) (absent : key ∉ c.recency)
    (full : ¬ c.size < c.capacity) :
    c.missing (c.set key value) = 1 ∧ c.recency.getLast?.isSome := by
  have size := h.size_eq
  have within := h.within
  have positive := c.capacity_pos
  obtain nil | ⟨kept, victim, split_off⟩ := c.recency.eq_nil_or_concat'
  · rw [nil, List.length_nil] at size
    omega
  have length : kept.length = c.capacity - 1 := by
    rw [split_off, List.length_append, List.length_singleton] at size within
    omega
  have front : (c.set key value).recency = key :: kept := by
    rw [h.recency_set, List.erase_of_not_mem absent, split_off, ← length, List.take_left]
  -- The key at the back is neither the new one nor any of those in front of it.
  have left : victim ∉ key :: kept := by
    have distinct := h.distinct
    rw [split_off, List.nodup_append] at distinct
    intro mem
    obtain rfl | mem := List.mem_cons.1 mem
    · exact absent (by simp [split_off])
    · exact distinct.2.2 victim mem victim (List.mem_singleton.2 rfl) rfl
  constructor
  · rw [h.missing_eq (h.set key value), front, split_off, List.countP_append,
      List.countP_eq_zero.2 fun key' mem => by simp [mem], Nat.zero_add]
    simp only [List.countP_singleton, left, not_false_eq_true, decide_true, if_true]
  · rw [split_off, List.getLast?_concat]
    rfl

/-- A `set` counts the key that it drives out, and that is the only one that leaves. -/
theorem evictions_set (h : c.Sound) (key value : String) :
    (c.set key value).evictions = c.evictions + c.missing (c.set key value) := by
  by_cases there : key ∈ c.recency
  case pos =>
    rw [h.missing_set_of_mem value there, Lru.set, if_pos (h.contains_iff.2 there)]
    rfl
  have pushed : (c.set key value).evictions = (c.makeRoom c.size).evictions := by
    rw [Lru.set, if_neg (fun cached => there (h.contains_iff.1 cached))]
  rw [pushed, h.makeRoom_eq]
  split
  case isTrue room => rw [h.missing_set_of_room value there room, Nat.add_zero]
  case isFalse full =>
    obtain ⟨one_missing, at_back⟩ := h.missing_set_of_full value there full
    obtain ⟨victim, last⟩ := Option.isSome_iff_exists.1 at_back
    rw [one_missing, Lru.evict, last]

end Sound

/-! ### Every call -/

theorem apply_get (c : Lru) (key : String) :
    (Move.get key).apply c = if c.contains key then c.touch key else c := by
  rw [contains, Std.TreeMap.contains_eq_isSome_getElem?, Move.apply, get?]
  cases c.entries[key]? <;> rfl

theorem event?_get (c : Lru) (key : String) :
    (Move.get key).event? c = if c.contains key then some (.hit key) else none := by
  rw [contains, Std.TreeMap.contains_eq_isSome_getElem?, Move.event?, get?, Option.isSome_map]

namespace Sound

/-- The two structures agree behind every call. -/
theorem apply (h : c.Sound) (m : Move) : (m.apply c).Sound := by
  cases m with
  | get key =>
    rw [apply_get]
    split
    case isTrue there => exact h.touch (h.contains_iff.1 there)
    case isFalse => exact h
  | set key value => exact h.set key value
  | contains key => exact h
  | clear => exact ⟨List.nodup_nil, fun key => by simp [Move.apply, clear], Nat.zero_le _⟩
  | remove key =>
    refine ⟨h.distinct.erase key, fun key' => ?_, (List.length_erase_le).trans h.within⟩
    show key' ∈ c.recency.erase key ↔ key' ∈ c.entries.erase key
    rw [h.distinct.mem_erase_iff, Std.TreeMap.mem_erase, h.same, ne_comm, ne_eq, ne_eq,
      Std.LawfulEqCmp.compare_eq_iff_eq]

theorem capacity_apply (h : c.Sound) (m : Move) : (m.apply c).capacity = c.capacity := by
  cases m with
  | get key =>
    rw [apply_get]
    split <;> rfl
  | set key value => exact h.capacity_set key value
  | contains key | clear | remove key => rfl

/-- The counter of evictions counts what leaves. -/
theorem evictions_apply (h : c.Sound) (m : Move) :
    (m.apply c).evictions = c.evictions + m.evicted c := by
  cases m with
  | get key =>
    have stay : c.missing ((Move.get key).apply c) = 0 := by
      refine h.missing_eq_zero (h.apply _) fun key' mem => ?_
      rw [apply_get]
      split
      case isTrue there =>
        exact (List.perm_cons_erase (h.contains_iff.1 there)).mem_iff.1 mem
      case isFalse => exact mem
    rw [Move.evicted, stay, apply_get]
    split <;> rfl
  | set key value => exact h.evictions_set key value
  | contains key =>
    rw [Move.evicted, h.missing_eq_zero (h.apply _) fun _ => id]
    rfl
  | clear | remove key => rfl

end Sound

/-- What holds of the structures behind every run. -/
theorem Reachable.sound (h : Reachable capacity past driven c) :
    c.Sound ∧ c.capacity = capacity ∧ c.evictions = driven := by
  induction h with
  | start made =>
    rw [ofCapacity?, Option.dite_none_right_eq_some] at made
    obtain ⟨_, made⟩ := made
    cases made
    exact ⟨⟨List.nodup_nil, fun key => by simp, Nat.zero_le _⟩, rfl, rfl⟩
  | step m _ ih =>
    obtain ⟨sound, room, counted⟩ := ih
    refine ⟨sound.apply m, (sound.capacity_apply m).trans room, ?_⟩
    rw [sound.evictions_apply m, counted]

/-! ### The order of the keys -/

/-- The recency list begins the list of all touched keys, and what is cached was set last. -/
structure Recent (past : List Event) (c : Lru) : Prop where
  order : c.recency = (byRecency (touched past)).take c.capacity
  values : ∀ key ∈ c.recency, c.entries[key]? = lastValue? past key
  /-- Only a key that was set can be found. -/
  set : ∀ key ∈ touched past, (lastValue? past key).isSome

theorem sinceClear_cons {e : Event} (other : e ≠ .cleared) :
    sinceClear (e :: past) = e :: sinceClear past :=
  List.takeWhile_cons_of_pos (by simpa using other)

theorem touched_set : touched (.set key value :: past) = key :: touched past := by
  rw [touched, sinceClear_cons (by simp)]
  rfl

theorem touched_hit : touched (.hit key :: past) = key :: touched past := by
  rw [touched, sinceClear_cons (by simp)]
  rfl

theorem lastValue?_set {key' : String} :
    lastValue? (.set key value :: past) key' =
      if key' = key then some value else lastValue? past key' := by
  rw [lastValue?, sinceClear_cons (by simp), List.findSome?_cons, Event.value?]
  by_cases same : key = key'
  · rw [if_pos same, if_pos same.symm]
  · rw [if_neg same, if_neg (Ne.symm same)]
    rfl

theorem lastValue?_hit {key' : String} :
    lastValue? (.hit key :: past) key' = lastValue? past key' := by
  rw [lastValue?, sinceClear_cons (by simp)]
  rfl

/-- A touch brings one key to the front of those that there is room for. -/
theorem take_byRecency_cons {room : Nat} (positive : 0 < room) (key : String)
    (touches : List String) :
    (byRecency (key :: touches)).take room =
      key :: (((byRecency touches).take room).erase key).take (room - 1) := by
  obtain ⟨n, rfl⟩ := Nat.exists_eq_add_one.2 positive
  rw [byRecency, List.take_succ_cons, take_erase, Nat.add_sub_cancel]

namespace Recent

theorem touched_of_mem (r : Recent past c) (mem : key ∈ c.recency) : key ∈ touched past := by
  rw [r.order] at mem
  exact mem_byRecency.1 (List.mem_of_mem_take mem)

theorem hit (r : Recent past c) (h : c.Sound) (there : key ∈ c.recency) :
    Recent (.hit key :: past) (c.touch key) where
  order := by
    rw [h.recency_touch there, touched_hit]
    show _ = (byRecency (key :: touched past)).take c.capacity
    rw [take_byRecency_cons c.capacity_pos, ← r.order]
  values key' mem := by
    rw [lastValue?_hit]
    exact r.values key' ((List.perm_cons_erase there).mem_iff.2 mem)
  set key' mem := by
    rw [lastValue?_hit]
    rw [touched_hit] at mem
    obtain rfl | mem := List.mem_cons.1 mem
    · exact r.set key' (r.touched_of_mem there)
    · exact r.set key' mem

theorem stored (r : Recent past c) (h : c.Sound) (key value : String) :
    Recent (.set key value :: past) (c.set key value) where
  order := by
    rw [h.recency_set, touched_set, h.capacity_set, take_byRecency_cons c.capacity_pos, ← r.order]
  values key' mem := by
    rw [h.entries_set mem, lastValue?_set]
    split
    · rfl
    · next other =>
      rw [h.recency_set] at mem
      have before := (List.mem_cons.1 mem).resolve_left other
      exact r.values key' (List.mem_of_mem_erase (List.mem_of_mem_take before))
  set key' mem := by
    rw [lastValue?_set]
    split
    · rfl
    · next other =>
      rw [touched_set] at mem
      exact r.set key' ((List.mem_cons.1 mem).resolve_left other)

theorem cleared (past : List Event) (c : Lru) : Recent (.cleared :: past) c.clear where
  order := List.take_nil.symm
  values _ mem := absurd mem List.not_mem_nil
  set _ mem := absurd mem List.not_mem_nil

/-- Every call but `remove` keeps the order. -/
theorem apply (r : Recent past c) (h : c.Sound) (m : Move) (kept : ∀ key, m ≠ .remove key) :
    Recent ((m.event? c).toList ++ past) (m.apply c) := by
  cases m with
  | get key =>
    rw [apply_get, event?_get]
    split
    case isTrue there => exact r.hit h (h.contains_iff.1 there)
    case isFalse => exact r
  | set key value => exact r.stored h key value
  | contains key => exact r
  | clear => exact cleared past c
  | remove key => exact absurd rfl (kept key)

end Recent

/-- While nothing was removed, the recency list is ordered by the touches. -/
theorem Reachable.recent (h : Reachable capacity past driven c)
    (kept : ∀ key, .removed key ∉ past) : Recent past c := by
  induction h with
  | start made =>
    rw [ofCapacity?, Option.dite_none_right_eq_some] at made
    obtain ⟨_, made⟩ := made
    cases made
    exact ⟨List.take_nil.symm, fun _ mem => absurd mem List.not_mem_nil,
      fun _ mem => absurd mem List.not_mem_nil⟩
  | @step past driven c m before ih =>
    have earlier : ∀ key, .removed key ∉ past :=
      fun key mem => kept key (List.mem_append_right _ mem)
    refine (ih earlier).apply before.sound.1 m fun key removes => ?_
    subst removes
    exact kept key (List.mem_append_left past (List.mem_singleton.2 rfl))

/-! ### What is cached -/

/-- A key has a last value if it was set since the last clear. -/
theorem isSome_lastValue? :
    (lastValue? past key).isSome = true ↔ ∃ value, .set key value ∈ sinceClear past := by
  rw [lastValue?, List.findSome?_isSome_iff]
  constructor
  · rintro ⟨e, mem, some⟩
    cases e with
    | set key' value =>
      rw [Event.value?] at some
      split at some
      · next same => exact ⟨value, same ▸ mem⟩
      · cases some
    | hit | cleared | removed => cases some
  · rintro ⟨value, mem⟩
    exact ⟨_, mem, by rw [Event.value?, if_pos rfl]; rfl⟩

/-- The map and the recency list hold the same keys, never more than the capacity, and the counter
of evictions counts what left otherwise than by being removed or cleared. While nothing was removed,
a key is cached just if it was set since the last clear and fewer other keys than the capacity were
touched since its own last touch; its value is the one that was set last. -/
theorem residency_follows_touches (h : Reachable capacity past driven c) :
    (∀ key, key ∈ c.recency ↔ key ∈ c.entries) ∧ c.recency.Nodup ∧
    c.size ≤ capacity ∧ c.evictions = driven ∧
    ((∀ key, .removed key ∉ past) → ∀ key,
      (c.contains key = true ↔
        (∃ value, .set key value ∈ sinceClear past) ∧ (touchedAfter past key).card < capacity) ∧
      (c.contains key = true → ∃ value c',
        c.get? key = some (value, c') ∧ lastValue? past key = some value)) := by
  obtain ⟨sound, rfl, counted⟩ := h.sound
  refine ⟨sound.same, sound.distinct, sound.size_eq.trans_le sound.within, counted,
    fun kept key => ?_⟩
  have r := h.recent kept
  have cached : c.contains key = true ↔
      key ∈ touched past ∧ (touchedAfter past key).card < c.capacity := by
    rw [sound.contains_iff, r.order, mem_take_iff, mem_byRecency, takeWhile_byRecency,
      length_byRecency]
    rfl
  have set : key ∈ touched past ↔ ∃ value, .set key value ∈ sinceClear past := by
    rw [← isSome_lastValue?]
    refine ⟨r.set key, fun some => ?_⟩
    obtain ⟨value, mem⟩ := isSome_lastValue?.1 some
    exact List.mem_filterMap.2 ⟨_, mem, rfl⟩
  refine ⟨cached.trans (and_congr_left' set), fun there => ?_⟩
  have last := r.values key (sound.contains_iff.1 there)
  obtain ⟨value, found⟩ := Option.isSome_iff_exists.1 (r.set key (cached.1 there).1)
  refine ⟨value, c.touch key, ?_, found⟩
  rw [get?, last, found]
  rfl

/-- Of two keys in a cache with room for two, the one that was found again stays when a third one
is set. -/
theorem least_recently_touched_is_driven_out :
    ∃ c, Reachable 2 [.set "c" "3", .hit "a", .set "b" "2", .set "a" "1"] 1 c ∧
      c.contains "a" = true ∧ c.contains "b" = false ∧ c.size ≤ 2 ∧ c.evictions = 1 := by
  have start : Reachable 2 [] 0 { capacity := 2, capacity_pos := by decide } := .start rfl
  have moves := (((start.step (.set "a" "1")).step (.set "b" "2")).step (.get "a")).step
    (.set "c" "3")
  obtain ⟨c, run⟩ : ∃ c, Reachable 2 [.set "c" "3", .hit "a", .set "b" "2", .set "a" "1"] 1 c := by
    refine ⟨_, cast (congrArg₂ (Reachable 2 · · _) ?_ ?_) moves⟩ <;> decide
  obtain ⟨-, -, room, counted, resident⟩ := residency_follows_touches run
  have kept := resident (by simp)
  refine ⟨c, run, (kept "a").1.2 ⟨⟨"1", by decide⟩, by decide⟩, ?_, room, counted⟩
  exact Bool.eq_false_iff.2 fun cached => absurd ((kept "b").1.1 cached).2 (by decide)

end FlatStore.Lru
