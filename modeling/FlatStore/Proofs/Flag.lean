import FlatStore.Flag
import FlatStore.Proofs.Coherence
import FlatStore.Proofs.KeyOwner
import Mathlib.Data.List.Induction

/-! # What flags tell

    A run sets and clears flags, with checks, flushes and losses of cached
    texts in between, and nothing else is written. A flag's key joins its name
    and what is extra with a comma, so flags whose joined texts agree are one
    and the same field.

    * **Step**: each move leaves every field as the last mark of its joined text
      says (`Kept.apply`).
    * **Run**: a check tells whether the last mark with the same number and the
      same joined text set the flag (`check_tells_last_mark`). Where no name
      holds a comma, that is the last mark of this very flag.
-/

namespace FlatStore

/-- Flags are kept in the same field just if their numbers and their joined texts agree. -/
theorem Key.text_flag_inj {id id' : FileId} {name name' : String} {extra extra' : Option String} :
    (Key.flag id name extra).text = (Key.flag id' name' extra').text ↔
      id = id' ∧ name ++ optional extra = name' ++ optional extra' := by
  constructor
  · intro h
    have same := owner_eq_of_text_eq h
    rwa [owner, owner, Structure.flags.injEq] at same
  · rintro ⟨rfl, joined⟩
    rw [text_flag, text_flag, joined]

/-- The text in front of the first comma is told by the whole text. -/
theorem Key.takeWhile_joined {name : String} (plain : ',' ∉ name.toList) (extra : Option String) :
    (name ++ optional extra).toList.takeWhile (· ≠ ',') = name.toList := by
  have front : ∀ c ∈ name.toList, decide (c ≠ ',') = true := by
    intro c hc
    exact decide_eq_true fun comma => plain (comma ▸ hc)
  rw [String.toList_append, List.takeWhile_append_of_pos front, toList_optional]
  cases extra <;> simp

/-- Names without a comma are joined to the same text only if nothing differs. -/
theorem Key.joined_inj {name name' : String} {extra extra' : Option String}
    (plain : ',' ∉ name.toList) (plain' : ',' ∉ name'.toList) :
    name ++ optional extra = name' ++ optional extra' ↔ name = name' ∧ extra = extra' := by
  constructor
  · intro h
    have front := Key.takeWhile_joined plain extra
    rw [h, Key.takeWhile_joined plain' extra', String.toList_inj] at front
    obtain rfl := front
    exact ⟨rfl, optional_inj ((String.append_right_inj _).1 h)⟩
  · rintro ⟨rfl, rfl⟩
    rfl

namespace Flag

/-! ### Marks -/

/-- A call that sets or clears a flag. -/
structure Mark where
  id : FileId
  name : String
  extra : Option String
  valid : Bool

namespace Mark

/-- What the call does. -/
def script (m : Mark) : Script Unit :=
  if m.valid then set m.id m.name m.extra else clear m.id m.name m.extra

/-- The text of the flag's field afterwards. -/
def content (valid : Bool) : String := if valid then "1" else "0"

/-- A field holds `1` just if the last mark set its flag. -/
theorem content_told (last : Option Bool) :
    (last.map content == some "1") = (last == some true) := by
  rcases last with _ | valid
  · rfl
  · cases valid <;> decide

theorem script_eq (m : Mark) :
    m.script = Script.put (Key.flag m.id m.name m.extra).text (content m.valid) := by
  unfold script content
  cases m.valid <;> rfl

/-- The mark is one of this flag. -/
abbrev Of (id : FileId) (name : String) (extra : Option String) (m : Mark) : Prop :=
  m.id = id ∧ m.name = name ∧ m.extra = extra

/-- The mark is one of a flag with this number and this joined text. -/
abbrev OfJoined (id : FileId) (joined : String) (m : Mark) : Prop :=
  m.id = id ∧ m.name ++ Key.optional m.extra = joined

end Mark

/-- What the last of these marks that has a property does; nothing if none has it. -/
def lastMark? (P : Mark → Prop) [DecidablePred P] (marks : List Mark) : Option Bool :=
  (marks.reverse.find? fun m => P m).map Mark.valid

theorem lastMark?_concat (P : Mark → Prop) [DecidablePred P] (marks : List Mark) (m : Mark) :
    lastMark? P (marks ++ [m]) = if P m then some m.valid else lastMark? P marks := by
  unfold lastMark?
  rw [List.reverse_append, List.reverse_singleton, List.singleton_append, List.find?_cons]
  by_cases same : P m <;> simp [same]

/-- Among names without a comma, the last mark of a joined text is that of the flag. -/
theorem lastMark?_of_plain {marks : List Mark} {id : FileId} {name : String}
    {extra : Option String} (plain : ',' ∉ name.toList)
    (all_plain : ∀ m ∈ marks, ',' ∉ m.name.toList) :
    lastMark? (Mark.OfJoined id (name ++ Key.optional extra)) marks =
      lastMark? (Mark.Of id name extra) marks := by
  induction marks using List.reverseRecOn with
  | nil => rfl
  | append_singleton marks m ih =>
    have same : Mark.OfJoined id (name ++ Key.optional extra) m ↔ Mark.Of id name extra m :=
      and_congr_right' (Key.joined_inj (all_plain m (by simp)) plain)
    rw [lastMark?_concat, lastMark?_concat, ih fun m' hm => all_plain m' (by simp [hm])]
    simp only [same]

/-! ### Moves -/

/-- What can happen to a field store in which flags are written and nothing else. -/
inductive Move where
  | mark (m : Mark)
  | check (id : FileId) (name : String) (extra : Option String)
  | clearCache
  | flush

variable {σ : Type} [ByteStore σ]

namespace Move

/-- The byte store takes what the move writes. -/
def Taken (view : StoreView σ) : Move → Prop
  | mark m =>
    view.takes (Key.flag m.id m.name m.extra).text.toUTF8 (Mark.content m.valid).toUTF8
  | check _ _ _ | clearCache | flush => True

/-- The field store after a move. -/
def apply (f : FieldStore σ) : Move → FieldStore σ
  | mark m => leftBy (FieldStore.perform m.script f)
  | check id name extra => leftBy (FieldStore.perform (Flag.check id name extra) f)
  | clearCache => f.clearCache
  | flush => leftBy (FieldStore.flush f)

/-- The mark that the move makes, if it is one. -/
def mark? : Move → Option Mark
  | mark m => some m
  | check _ _ _ | clearCache | flush => none

end Move

/-- The marks that are made by moves, in their order. -/
def marksOf (moves : List Move) : List Mark := moves.filterMap Move.mark?

theorem marksOf_of_none {m : Move} (h : m.mark? = none) : marksOf [m] = [] := by
  rw [marksOf, List.filterMap_cons_none h, List.filterMap_nil]

/-! ### The invariant of a run -/

/-- Every flag's field is as the last mark of its joined text left it. -/
structure Kept (view : StoreView σ) (marks : List Mark) (f : FieldStore σ) (c : Contents) :
    Prop where
  shows : f.Shows view c
  fields : ∀ id name extra, c.read (Key.flag id name extra).text =
    .ok ((lastMark? (Mark.OfJoined id (name ++ Key.optional extra)) marks).map Mark.content)

variable {view : StoreView σ} {marks : List Mark} {f : FieldStore σ} {c : Contents}

/-- A check tells what the last mark of the joined text was, and changes no field. -/
theorem Kept.check (h : Kept view marks f c) (id : FileId) (name : String) (extra : Option String) :
    ∃ f', FieldStore.perform (Flag.check id name extra) f =
        .ok (lastMark? (Mark.OfJoined id (name ++ Key.optional extra)) marks == some true) f' ∧
      Kept view marks f' c := by
  have run : (Flag.check id name extra).run c =
      .ok (lastMark? (Mark.OfJoined id (name ++ Key.optional extra)) marks == some true) c := by
    rw [Flag.check, Script.run_bind_ok (Script.run_get (h.fields id name extra)), Script.run_pure,
      Mark.content_told]
  have nothing : (Flag.check id name extra).writes c = [] := by
    change (Script.read _ _).writes c = []
    rw [Script.writes, h.fields]
    rfl
  obtain ⟨f', performed, shown_after⟩ := FieldStore.perform_ok h.shows run (by
    rw [nothing]
    exact fun w hw => absurd hw List.not_mem_nil)
  exact ⟨f', performed, shown_after, h.fields⟩

/-- A mark that the store takes is made, and changes just the fields of its joined text. -/
theorem Kept.mark (h : Kept view marks f c) (m : Mark) (taken : (Move.mark m).Taken view) :
    ∃ f' c', FieldStore.perform m.script f = .ok () f' ∧ Kept view (marks ++ [m]) f' c' := by
  have run : m.script.run c =
      .ok () (c.put (Key.flag m.id m.name m.extra).text (Mark.content m.valid)) := by
    rw [m.script_eq, Script.run_put]
  have takes : view.TakesAll (m.script.writes c) := by
    intro w hw
    rw [m.script_eq] at hw
    rw [List.mem_singleton.1 hw]
    exact taken
  obtain ⟨f', performed, shown_after⟩ := FieldStore.perform_ok h.shows run takes
  refine ⟨f', _, performed, shown_after, ?_⟩
  intro id name extra
  rw [Contents.read_put, lastMark?_concat, h.fields]
  by_cases same : Mark.OfJoined id (name ++ Key.optional extra) m
  · rw [if_pos (Key.text_flag_inj.2 ⟨same.1.symm, same.2.symm⟩), if_pos same, Option.map_some]
  · rw [if_neg fun text => same ((Key.text_flag_inj.1 text).imp Eq.symm Eq.symm), if_neg same]

/-- Every move keeps the fields as the marks say. -/
theorem Kept.apply (h : Kept view marks f c) {m : Move} (taken : m.Taken view) :
    ∃ c', Kept view (marks ++ marksOf [m]) (m.apply f) c' := by
  cases m with
  | mark m =>
    obtain ⟨f', c', performed, kept⟩ := h.mark m taken
    rw [Move.apply, performed]
    exact ⟨c', kept⟩
  | check id name extra =>
    obtain ⟨f', performed, kept⟩ := h.check id name extra
    rw [Move.apply, performed, marksOf_of_none rfl, List.append_nil]
    exact ⟨c, kept⟩
  | clearCache =>
    rw [marksOf_of_none rfl, List.append_nil]
    exact ⟨c, h.shows.clearCache, h.fields⟩
  | flush =>
    obtain ⟨f', shown_after, flushed⟩ := FieldStore.flush_shows h.shows
    rw [Move.apply, flushed, marksOf_of_none rfl, List.append_nil]
    exact ⟨c, shown_after, h.fields⟩

/-- Along every run the fields are as its marks say. -/
theorem Kept.run (h : Kept view marks f c) {moves : List Move} (taken : ∀ m ∈ moves, m.Taken view) :
    ∃ c', Kept view (marks ++ marksOf moves) (moves.foldl Move.apply f) c' := by
  induction moves generalizing marks f c with
  | nil => exact ⟨c, by rwa [marksOf, List.filterMap_nil, List.append_nil]⟩
  | cons m moves ih =>
    obtain ⟨c₁, kept⟩ := h.apply (taken m List.mem_cons_self)
    obtain ⟨c', kept'⟩ := ih kept fun m' hm => taken m' (List.mem_cons_of_mem m hm)
    rw [List.append_assoc, marksOf, marksOf, ← List.filterMap_append] at kept'
    exact ⟨c', kept'⟩

/-- Where no flag has a field, none was marked. -/
theorem kept_start (shown : f.Shows view c)
    (unset : ∀ id name extra, c (Key.flag id name extra).text.toUTF8 = none) :
    Kept view [] f c := by
  refine ⟨shown, fun id name extra => ?_⟩
  rw [Contents.read, unset]
  rfl

/-! ### What a check tells -/

/-- Flags are set and cleared, with checks, flushes and losses of cached texts in between, where no
flag had a field at first and the store takes every write. A check then tells whether the last mark
with the same number and the same joined text set the flag, and a mark with another number or
another joined text changes no answer. If no name holds a comma, the last mark of the flag itself
decides. -/
theorem check_tells_last_mark (shown : f.Shows view c)
    (unset : ∀ id name extra, c (Key.flag id name extra).text.toUTF8 = none) {moves : List Move}
    (taken : ∀ m ∈ moves, m.Taken view) (id : FileId) (name : String) (extra : Option String) :
    (∃ f', FieldStore.perform (Flag.check id name extra) (moves.foldl Move.apply f) =
      .ok (lastMark? (Mark.OfJoined id (name ++ Key.optional extra)) (marksOf moves) == some true)
        f') ∧
    (∀ m, (Move.mark m).Taken view → ¬ m.OfJoined id (name ++ Key.optional extra) →
      ∃ f', FieldStore.perform (Flag.check id name extra)
          ((Move.mark m).apply (moves.foldl Move.apply f)) =
        .ok (lastMark? (Mark.OfJoined id (name ++ Key.optional extra)) (marksOf moves) == some true)
          f') ∧
    (',' ∉ name.toList → (∀ m ∈ marksOf moves, ',' ∉ m.name.toList) →
      ∃ f', FieldStore.perform (Flag.check id name extra) (moves.foldl Move.apply f) =
        .ok (lastMark? (Mark.Of id name extra) (marksOf moves) == some true) f') := by
  obtain ⟨c', kept⟩ := (kept_start shown unset).run taken
  rw [List.nil_append] at kept
  obtain ⟨f', answered, -⟩ := kept.check id name extra
  refine ⟨⟨f', answered⟩, ?_, ?_⟩
  · intro m taken_m other
    obtain ⟨c₁, kept₁⟩ := kept.apply taken_m
    obtain ⟨f₁, answered₁, -⟩ := kept₁.check id name extra
    rw [show marksOf [.mark m] = [m] from rfl, lastMark?_concat, if_neg other] at answered₁
    exact ⟨f₁, answered₁⟩
  · intro plain all_plain
    rw [lastMark?_of_plain plain all_plain] at answered
    exact ⟨f', answered⟩

/-- A user is marked for one channel, then for another, and the first mark is taken back. -/
theorem second_channel_stays_valid :
    ∃ f f₁ f₂ : FieldStore Memory,
      [.mark ⟨20, "alice", some "#rust", true⟩, .check 20 "alice" (some "#rust"),
        .mark ⟨20, "alice", some "#go", true⟩, .clearCache,
        .mark ⟨20, "alice", some "#rust", false⟩].foldl Move.apply { store := Memory.empty } = f ∧
      FieldStore.perform (Flag.check 20 "alice" (some "#go")) f = .ok true f₁ ∧
      FieldStore.perform (Flag.check 20 "alice" (some "#rust")) f = .ok false f₂ := by
  have unset : ∀ id name extra,
      Memory.view.contents Memory.empty (Key.flag id name extra).text.toUTF8 = none :=
    fun _ _ _ => Std.TreeMap.getElem?_emptyc
  have taken : ∀ m ∈ ([.mark ⟨20, "alice", some "#rust", true⟩, .check 20 "alice" (some "#rust"),
      .mark ⟨20, "alice", some "#go", true⟩, .clearCache,
      .mark ⟨20, "alice", some "#rust", false⟩] : List Move), m.Taken Memory.view := by
    intro m _
    cases m <;> trivial
  obtain ⟨f₁, go⟩ := (check_tells_last_mark shows_empty unset taken 20 "alice" (some "#go")).1
  obtain ⟨f₂, rust⟩ := (check_tells_last_mark shows_empty unset taken 20 "alice" (some "#rust")).2.2
    (by decide) (by decide)
  exact ⟨_, f₁, f₂, rfl, go, rust⟩

/-- A flag is set whose name and extra part are `a` and `b`. The flag with the name `a,b`, which
nobody set, is found set too. -/
theorem joined_flag_is_found_set :
    lastMark? (Mark.Of 3 "a,b" none) (marksOf [.mark ⟨3, "a", some "b", true⟩]) = none ∧
      ∃ f : FieldStore Memory, FieldStore.perform (Flag.check 3 "a,b" none)
        ([.mark ⟨3, "a", some "b", true⟩].foldl Move.apply { store := Memory.empty }) =
          .ok true f := by
  have taken : ∀ m ∈ [Move.mark ⟨3, "a", some "b", true⟩], m.Taken Memory.view := by
    intro m hm
    rw [List.mem_singleton.1 hm]
    trivial
  obtain ⟨c, kept⟩ := (kept_start shows_empty fun _ _ _ => Std.TreeMap.getElem?_emptyc).run taken
  obtain ⟨f, answered, -⟩ := kept.check 3 "a,b" none
  exact ⟨by decide, f, answered⟩

end Flag

end FlatStore
