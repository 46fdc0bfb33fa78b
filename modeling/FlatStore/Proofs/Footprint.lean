import FlatStore.Counter
import FlatStore.Entry
import FlatStore.Flag
import FlatStore.IdPool
import FlatStore.IntList
import FlatStore.Proofs.KeyOwner
import FlatStore.Proofs.StoreLaws

/-! # Footprints

    A script stays within a structure if every key that it reads or writes, in
    any of its branches, belongs to the structure (`Script.Within`). It only
    asks if, besides, it writes nothing (`Script.Asks`).

    * Contents that agree on the structure give it the same outcome and the
      same writes, and agree behind it (`Within.run_agrees`).
    * It leaves the fields of all other structures alone (`Within.run_other`),
      and whatever else a store may hold (`Within.run_unnamed`).

    The operations on named entries and pools stay within the structure that
    they are called on, whatever they find there.
-/

namespace FlatStore

/-! ### Agreeing on a structure -/

/-- The contents agree on the fields of the structure. -/
def Contents.AgreeOn (S : Structure) (c c' : Contents) : Prop :=
  ∀ k : Key, k.owner = S → c k.text.toUTF8 = c' k.text.toUTF8

namespace Contents.AgreeOn

variable {S : Structure} {c c' c'' : Contents}

theorem trans (h : AgreeOn S c c') (h' : AgreeOn S c' c'') : AgreeOn S c c'' := by
  intro k hk
  rw [h k hk, h' k hk]

theorem read_eq (h : AgreeOn S c c') {k : Key} (hk : k.owner = S) :
    c.read k.text = c'.read k.text := by
  rw [Contents.read, Contents.read, h k hk]

theorem put (h : AgreeOn S c c') (key value : String) :
    AgreeOn S (c.put key value) (c'.put key value) := by
  intro k hk
  by_cases same : k.text.toUTF8 = key.toUTF8
  · simp only [Contents.put, if_pos same]
  · rw [Contents.put_of_ne same, Contents.put_of_ne same, h k hk]

/-- A write to a field of another structure is not seen. -/
theorem of_put {k : Key} (other : k.owner ≠ S) (c : Contents) (value : String) :
    AgreeOn S c (c.put k.text value) := by
  intro k' hk'
  refine (Contents.put_of_ne ?_).symm
  intro same
  exact other ((Key.owner_eq_of_text_eq (Contents.toUTF8_inj.1 same)).symm.trans hk')

end Contents.AgreeOn

/-! ### Scripts within a structure -/

namespace Script

variable {α β : Type} {S T : Structure}

/-- No branch of the script reads or writes a key of another structure. -/
def Within (S : Structure) : Script α → Prop
  | .done _ => True
  | .fail _ => True
  | .read key next => (∃ k : Key, k.owner = S ∧ k.text = key) ∧ ∀ found, (next found).Within S
  | .write key _ next => (∃ k : Key, k.owner = S ∧ k.text = key) ∧ next.Within S

/-- No branch of the script writes, or reads a key of another structure. -/
def Asks (S : Structure) : Script α → Prop
  | .done _ => True
  | .fail _ => True
  | .read key next => (∃ k : Key, k.owner = S ∧ k.text = key) ∧ ∀ found, (next found).Asks S
  | .write _ _ _ => False

theorem Asks.within {s : Script α} (h : s.Asks S) : s.Within S := by
  induction s with
  | done | fail => trivial
  | read key next ih => exact ⟨h.1, fun found => ih found (h.2 found)⟩
  | write => exact h.elim

/-- Where contents agree on the structure, the script does the same on them. -/
theorem Within.run_agrees {s : Script α} (h : s.Within S) {c c' : Contents}
    (agree : Contents.AgreeOn S c c') :
    SameOutcome (Contents.AgreeOn S) (s.run c) (s.run c') ∧ s.writes c = s.writes c' := by
  induction s generalizing c c' with
  | done result => exact ⟨.ok result agree, rfl⟩
  | fail failure => exact ⟨.error failure agree, rfl⟩
  | read key next ih =>
    obtain ⟨⟨k, hk, rfl⟩, rest⟩ := h
    simp only [run, writes, agree.read_eq hk]
    cases c'.read k.text with
    | ok found => exact ih found (rest found) agree
    | error e => exact ⟨.error _ agree, rfl⟩
  | write key value next ih =>
    obtain ⟨-, rest⟩ := h
    obtain ⟨same, writes⟩ := ih rest (agree.put key value)
    exact ⟨same, congrArg ((key, value) :: ·) writes⟩

/-- Fields of another structure are left alone. -/
theorem Within.run_other {s : Script α} (h : s.Within T) (other : T ≠ S) (c : Contents) :
    Contents.AgreeOn S c (leftBy (s.run c)) := by
  induction s generalizing c with
  | done | fail => exact fun _ _ => rfl
  | read key next ih =>
    rw [run]
    split
    · exact ih _ (h.2 _) c
    · exact fun _ _ => rfl
  | write key value next ih =>
    obtain ⟨⟨k, rfl, rfl⟩, rest⟩ := h
    exact (Contents.AgreeOn.of_put other c value).trans (ih rest _)

/-- What is stored under no key of the structure is left alone. -/
theorem Within.run_unnamed {s : Script α} (h : s.Within S) {key : Bytes}
    (unnamed : ∀ k : Key, k.owner = S → k.text.toUTF8 ≠ key) (c : Contents) :
    leftBy (s.run c) key = c key := by
  induction s generalizing c with
  | done | fail => rfl
  | read key next ih =>
    rw [run]
    split
    · exact ih _ (h.2 _) c
    · rfl
  | write key value next ih =>
    obtain ⟨⟨k, owned, rfl⟩, rest⟩ := h
    rw [run, ih rest, Contents.put_of_ne (unnamed k owned).symm]

/-- What has changed is stored under one of the keys that may change. -/
theorem Within.exists_key {s : Script α} (h : s.Within S) {P : Key → Prop} {c : Contents}
    (changes : Contents.Changes P c (leftBy (s.run c))) {key : Bytes}
    (changed : leftBy (s.run c) key ≠ c key) : ∃ k : Key, P k ∧ k.text.toUTF8 = key := by
  -- A text that is no key at all is not written either, so the change is under some key.
  obtain ⟨k, rfl⟩ : ∃ k : Key, k.text.toUTF8 = key := Classical.byContradiction fun unnamed =>
    changed (h.run_unnamed (fun k _ same => unnamed ⟨k, same⟩) c)
  exact ⟨k, Classical.byContradiction fun spared => changed (changes k spared), rfl⟩

/-! ### Steps -/

theorem Within.bind {s : Script α} {f : α → Script β} (h : s.Within S)
    (hf : ∀ a, (f a).Within S) : (s >>= f).Within S := by
  show (s.bind f).Within S
  induction s with
  | done a => exact hf a
  | fail => trivial
  | read key next ih => exact ⟨h.1, fun found => ih found (h.2 found)⟩
  | write key value next ih => exact ⟨h.1, ih h.2⟩

theorem Asks.bind {s : Script α} {f : α → Script β} (h : s.Asks S) (hf : ∀ a, (f a).Asks S) :
    (s >>= f).Asks S := by
  show (s.bind f).Asks S
  induction s with
  | done a => exact hf a
  | fail => trivial
  | read key next ih => exact ⟨h.1, fun found => ih found (h.2 found)⟩
  | write => exact h.elim

theorem Within.map {s : Script α} (h : s.Within S) (f : α → β) : (f <$> s).Within S := by
  rw [← bind_pure_comp]
  exact h.bind fun _ => trivial

theorem asks_get (k : Key) : (get k.text).Asks k.owner := ⟨⟨k, rfl, rfl⟩, fun _ => trivial⟩

theorem within_put (k : Key) (value : String) : (put k.text value).Within k.owner :=
  ⟨⟨k, rfl, rfl⟩, trivial⟩

theorem asks_getParsed (parse : String → Except Integer.Fault α) (k : Key) :
    (getParsed parse k.text).Asks k.owner := by
  refine (asks_get k).bind ?_
  intro found
  cases found with
  | none => trivial
  | some raw =>
    simp only
    split <;> trivial

theorem asks_successor (S : Structure) (n : Nat) : (successor n).Asks S := by
  unfold successor
  split <;> trivial

end Script

open Script

/-! ### Named entries -/

theorem Entry.asks_read (name : String) : (Entry.read name).Asks (.map name) :=
  asks_get (.map name)

theorem Entry.within_write (name value : String) : (Entry.write name value).Within (.map name) :=
  within_put (.map name) value

namespace Counter

variable (id : FileId) (extra : Option String)

theorem asks_read : (read id extra).Asks (.counter id extra) :=
  (asks_getParsed _ (.counter id extra)).bind fun _ => trivial

theorem within_write (value : Int) : (write id extra value).Within (.counter id extra) :=
  within_put (.counter id extra) _

theorem within_add (delta : Int) : (add id extra delta).Within (.counter id extra) :=
  (asks_read id extra).within.bind fun _ => (within_write id extra _).bind fun _ => trivial

end Counter

namespace Flag

variable (id : FileId) (name : String) (extra : Option String)

theorem within_set : (set id name extra).Within (.flags id (name ++ Key.optional extra)) :=
  within_put (.flag id name extra) _

theorem within_clear : (clear id name extra).Within (.flags id (name ++ Key.optional extra)) :=
  within_put (.flag id name extra) _

theorem asks_check : (check id name extra).Asks (.flags id (name ++ Key.optional extra)) :=
  (asks_get (.flag id name extra)).bind fun _ => trivial

end Flag

namespace IntList

variable (id : FileId) (name : Option String)

theorem asks_parsed (S : Structure) (key raw : String) : (parsed key raw).Asks S := by
  unfold parsed
  split <;> trivial

theorem asks_read : (read id name).Asks (.list id name) := by
  refine (asks_get (.list id name)).bind ?_
  intro found
  cases found with
  | none => trivial
  | some raw => exact asks_parsed _ _ raw

theorem asks_contains (value : Int) : (contains id name value).Asks (.list id name) :=
  (asks_read id name).bind fun _ => trivial

theorem within_add (value : Int) : (add id name value).Within (.list id name) := by
  refine (asks_get (.list id name)).within.bind fun found =>
    (asks_parsed _ _ _).within.bind fun values => ?_
  split
  · trivial
  · exact (within_put (.list id name) _).bind fun _ => trivial

theorem within_remove (value : Int) : (remove id name value).Within (.list id name) := by
  refine (asks_get (.list id name)).within.bind ?_
  intro found
  cases found with
  | none => trivial
  | some raw =>
    refine (asks_parsed _ _ raw).within.bind fun values => ?_
    split
    · exact (within_put (.list id name) _).bind fun _ => trivial
    · trivial

end IntList

/-! ### Pools -/

namespace IdPool

variable (ns : FileId)

theorem asks_highWater : (highWater ns).Asks (.space ns) :=
  (asks_getParsed _ (.highWater ns)).bind fun _ => trivial

theorem asks_freeCount : (freeCount ns).Asks (.space ns) :=
  (asks_getParsed _ (.freeCount ns)).bind fun _ => trivial

theorem within_allocate : (allocate ns).Within (.space ns) := by
  refine (asks_freeCount ns).within.bind ?_
  intro count
  cases count with
  | zero =>
    refine (asks_highWater ns).within.bind fun high =>
      (asks_successor _ high).within.bind fun next => ?_
    exact (within_put (.highWater ns) _).bind fun _ => trivial
  | succ slot =>
    refine (asks_getParsed _ (.freeSlot ns slot)).within.bind ?_
    intro found
    cases found with
    | none => trivial
    | some id => exact (within_put (.freeCount ns) _).bind fun _ => trivial

theorem within_free (id : NodeId) : (free ns id).Within (.space ns) :=
  (asks_freeCount ns).within.bind fun count => (within_put (.freeSlot ns count) _).bind fun _ =>
    (asks_successor _ count).within.bind fun _ => within_put (.freeCount ns) _

end IdPool

end FlatStore
