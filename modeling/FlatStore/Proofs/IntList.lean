import FlatStore.Proofs.Applied
import FlatStore.Proofs.Named
import Mathlib.Data.List.Dedup

/-! # What lists hold

    A run starts where the field of a list is absent and takes one move after
    the other: calls of the list, and whatever else happens in the store without
    writing this field. Beside the fields, a run carries its calls, latest
    first.

    * **One shape**: each call reads the field, parses its text and goes on with
      the numbers (`Call.script_eq`).
    * **Step**: on a stored list a call answers from the list, writes the text of
      the new one or nothing, and leaves the new one stored
      (`StoredIn.run_call`, `StoredIn.writes_call`).
    * **Spelling**: a text is parsed just if it is empty or spells numbers
      between commas (`NumberList`), so any other text ends every call.
    * `lists_hold_what_was_added`: along every run the list holds the numbers
      that were added last, in the order in which they came in.
-/

namespace FlatStore

namespace Text

/-- The parts of a text make it up again. -/
theorem joinCommas_splitCommas (s : String) : joinCommas (splitCommas s) = s := by
  have parts : (splitCommas s).map String.toList = s.toList.splitOn ',' := by
    simp [splitCommas, Function.comp_def]
  rw [← String.toList_inj, joinCommas, String.toList_intercalate, parts]
  exact List.intercalate_splitOn ','

end Text

namespace IntList

/-- The text spells numbers of 32 bits between commas. -/
def NumberList (raw : String) : Prop :=
  ∃ items : List String, items ≠ [] ∧ raw = Text.joinCommas items ∧
    ∀ item ∈ items, ∃ n, Integer.Spells item n ∧ Fits n

theorem numberList_of_readable {raw : String}
    (readable : ∀ item ∈ Text.splitCommas raw, ∃ n, Integer.signed32 item = .ok n) :
    NumberList raw := by
  refine ⟨Text.splitCommas raw, ?_, (Text.joinCommas_splitCommas raw).symm, ?_⟩
  · simp [Text.splitCommas]
  · intro item mem
    obtain ⟨n, read⟩ := readable item mem
    obtain ⟨spells, fits⟩ := Integer.intWithin_sound (by decide) read
    exact ⟨n, spells, fits⟩

/-- A text that is not of this form is reported under its key. -/
theorem parse_eq_error {raw : String} (key : String) (filled : raw ≠ "") (bad : ¬ NumberList raw) :
    ∃ fault, parse key raw = .error (.corruptValue key fault) := by
  rw [parse, if_neg (by rwa [String.isEmpty_iff])]
  have unreadable : ¬ ∀ item ∈ Text.splitCommas raw, ∃ n, Integer.signed32 item = .ok n :=
    fun readable => bad (numberList_of_readable readable)
  generalize Text.splitCommas raw = items at unreadable
  -- The first item that is no number is the one that is reported.
  induction items with
  | nil => exact absurd (List.forall_mem_nil _) unreadable
  | cons item items ih =>
    rw [List.mapM_cons]
    cases read : Integer.signed32 item with
    | error fault => exact ⟨.integer fault item, rfl⟩
    | ok n =>
      obtain ⟨fault, behind⟩ := ih fun readable =>
        unreadable (List.forall_mem_cons.2 ⟨⟨n, read⟩, readable⟩)
      rw [behind]
      exact ⟨fault, rfl⟩

/-- What spells numbers between commas is parsed. -/
theorem NumberList.parse {raw : String} (h : NumberList raw) (key : String) :
    ∃ values, parse key raw = .ok values := by
  obtain ⟨items, nonempty, rfl, spelled⟩ := h
  rw [IntList.parse]
  by_cases empty : (Text.joinCommas items).isEmpty
  · exact ⟨[], if_pos empty⟩
  have parts : Text.splitCommas (Text.joinCommas items) = items := by
    refine KeyOrder.splitCommas_joinCommas (fun item mem => ?_) nonempty
    obtain ⟨n, spells, -⟩ := spelled item mem
    exact spells.comma_not_mem
  rw [if_neg empty, parts]
  clear nonempty empty parts
  induction items with
  | nil => exact ⟨[], rfl⟩
  | cons item items ih =>
    obtain ⟨n, spells, low, high⟩ := spelled item List.mem_cons_self
    obtain ⟨values, behind⟩ := ih fun item' mem => spelled item' (List.mem_cons_of_mem item mem)
    have here : Integer.signed32 item = .ok n := spells.intWithin low high
    rw [List.mapM_cons, behind]
    simp only [here]
    exact ⟨n :: values, rfl⟩

/-- Just the empty text and numbers between commas are parsed. -/
theorem parse_eq_ok_iff (key raw : String) :
    (∃ values, parse key raw = .ok values) ↔ raw = "" ∨ NumberList raw := by
  constructor
  · rintro ⟨values, parsed⟩
    by_contra other
    rw [not_or] at other
    obtain ⟨fault, refused⟩ := parse_eq_error key other.1 other.2
    rw [refused] at parsed
    cases parsed
  · rintro (rfl | list)
    · exact ⟨[], rfl⟩
    · exact list.parse key

/-! ### Calls -/

/-- A call of a list. -/
inductive Call where
  | read
  | contains (value : Int)
  | add (value : Int)
  | remove (value : Int)

namespace Call

/-- What the call gives. -/
abbrev Result : Call → Type
  | read => List Int
  | contains _ | add _ | remove _ => Bool

/-- What the call does. -/
def script (id : FileId) (name : Option String) : (call : Call) → Script call.Result
  | read => IntList.read id name
  | contains value => IntList.contains id name value
  | add value => IntList.add id name value
  | remove value => IntList.remove id name value

/-- The number that the call is about fits into 32 bits. -/
def Fits : Call → Prop
  | read => True
  | contains value | add value | remove value => IntList.Fits value

/-- The result on a list. -/
def answer (values : List Int) : (call : Call) → call.Result
  | read => values
  | contains value | remove value => values.contains value
  | add value => !values.contains value

/-- Whether the call changes a list: an addition of what is not there, or a removal of what is. -/
def changes (values : List Int) : Call → Bool
  | read | contains _ => false
  | add value => !values.contains value
  | remove value => values.contains value

/-- The list behind the call. -/
def after (values : List Int) : Call → List Int
  | read | contains _ => values
  | add value => if values.contains value then values else values ++ [value]
  | remove value => values.erase value

/-- What the call does once the text is parsed. -/
def finish (id : FileId) (name : Option String) (raw : String) (values : List Int) :
    (call : Call) → Script call.Result
  | read => return values
  | contains value => return values.contains value
  | add value =>
    if values.contains value then return false
    else do
      Script.put (Key.list id name).text
        (if raw.isEmpty then toString value else raw ++ "," ++ toString value)
      return true
  | remove value =>
    if values.contains value then do
      Script.put (Key.list id name).text (join (values.erase value))
      return true
    else return false

end Call

variable {c : Contents} {id : FileId} {name : Option String} {values : List Int}

/-- Each call reads the field, parses its text and goes on with the numbers. -/
theorem Call.script_eq (call : Call) : call.script id name =
    Script.get (Key.list id name).text >>= fun found =>
      parsed (Key.list id name).text (found.getD "") >>= fun values =>
        call.finish id name (found.getD "") values := by
  have empty : parsed (Key.list id name).text "" = pure [] := rfl
  cases call with
  | read =>
    rw [script, IntList.read]
    refine congrArg _ (funext fun found => ?_)
    cases found with
    | none => rfl
    | some raw => exact (bind_pure _).symm
  | contains value =>
    rw [script, IntList.contains, IntList.read, bind_assoc]
    refine congrArg _ (funext fun found => ?_)
    cases found <;> rfl
  | add value =>
    rw [script, IntList.add]
    refine congrArg _ (funext fun found => congrArg _ (funext fun values => ?_))
    cases there : values.contains value <;> simp only [finish, there]
  | remove value =>
    rw [script, IntList.remove]
    refine congrArg _ (funext fun found => ?_)
    cases found <;> rfl

/-- Where the text of the field is damaged, each call reports the field and writes nothing. -/
theorem Call.run_damaged {raw : String} {fault : ValueFault} (call : Call)
    (there : c.read (Key.list id name).text = .ok (some raw))
    (damaged : parse (Key.list id name).text raw =
      .error (.corruptValue (Key.list id name).text fault)) :
    (call.script id name).run c =
        .error (.error (.corruptValue (Key.list id name).text fault)) c ∧
      (call.script id name).writes c = [] := by
  rw [call.script_eq]
  have ends : parsed (Key.list id name).text raw =
      Script.throw (.corruptValue (Key.list id name).text fault) := by
    rw [parsed, damaged]
  constructor
  · rw [Script.run_bind_ok (Script.run_get there), Option.getD_some, ends]
    rfl
  · rw [Script.writes_bind_ok (Script.run_get there), Option.getD_some, ends]
    show (Script.read _ _).writes c ++ [] = []
    rw [Script.writes, there]
    rfl

namespace StoredIn

/-- A call answers from the list and leaves the new one stored. -/
theorem run_call (h : StoredIn c id name values) {call : Call} (fits : call.Fits) :
    ∃ c', (call.script id name).run c = .ok (call.answer values) c' ∧
      StoredIn c' id name (call.after values) := by
  cases call with
  | read => exact ⟨c, h.run_read, h⟩
  | contains value => exact ⟨c, h.run_contains value, h⟩
  | add value => exact h.run_add fits
  | remove value => exact h.run_remove value

/-- A call that changes nothing writes nothing. -/
theorem writes_call (h : StoredIn c id name values) {call : Call}
    (same : call.changes values = false) : (call.script id name).writes c = [] := by
  obtain ⟨found, read, text⟩ := h.text_eq
  have asked : (Script.get (Key.list id name).text).writes c = [] := by
    show (Script.read _ _).writes c = []
    rw [Script.writes, read]
    rfl
  have looked : parsed (Key.list id name).text (join values) = pure values := by
    rw [parsed, parse_join _ h.fits]
  rw [call.script_eq, Script.writes_bind_ok (Script.run_get read), asked, text, looked, pure_bind,
    List.nil_append]
  cases call with
  | read | contains value => rfl
  | add value =>
    rw [Call.changes, Bool.not_eq_false'] at same
    rw [Call.finish, if_pos same]
    rfl
  | remove value =>
    rw [Call.changes] at same
    rw [Call.finish, if_neg (Bool.eq_false_iff.1 same)]
    rfl

/-- What does not write the field of the list keeps it. -/
theorem frame {P : Key → Prop} {c' : Contents} (h : StoredIn c id name values)
    (changes : Contents.Changes P c c') (spared : ¬ P (.list id name)) :
    StoredIn c' id name values :=
  ⟨h.fits, by rw [changes.read_eq spared]; exact h.field⟩

end StoredIn

/-! ### What was added and not removed -/

/-- Whether the call adds the value or removes it; nothing if it does neither. -/
def Call.puts? (value : Int) : Call → Option Bool
  | read | contains _ => none
  | add value' => if value' = value then some true else none
  | remove value' => if value' = value then some false else none

/-- Whether the last call that added or removed the value, of calls latest first, added it. -/
def held (past : List Call) (value : Int) : Bool :=
  past.findSome? (Call.puts? value) == some true

/-- The values that came in anew, latest first: those that were added while they were not held. -/
def arrivals : List Call → List Int
  | [] => []
  | .add value :: past =>
    if held past value then arrivals past else value :: arrivals past
  | .read :: past | .contains _ :: past | .remove _ :: past => arrivals past

/-- The values that are held, in the order in which they came in last. -/
def listed (past : List Call) : List Int := (arrivals past).reverse.dedup.filter (held past)

variable {past : List Call} {value : Int}

theorem held_cons (call : Call) (past : List Call) (value : Int) :
    held (call :: past) value = ((call.puts? value).getD (held past value)) := by
  rw [held, List.findSome?_cons]
  cases call.puts? value with
  | none => rfl
  | some put => cases put <;> rfl

theorem mem_arrivals (h : held past value = true) : value ∈ arrivals past := by
  induction past with
  | nil => cases h
  | cons call past ih =>
    rw [held_cons] at h
    cases call with
    | read | contains _ => exact ih h
    | add value' =>
      rw [arrivals]
      by_cases same : value' = value
      · subst same
        split
        · next before => exact ih before
        · exact List.mem_cons_self
      · rw [Call.puts?, if_neg same] at h
        split
        · exact ih h
        · exact List.mem_cons_of_mem value' (ih h)
    | remove value' =>
      rw [Call.puts?] at h
      split at h
      · cases h
      · exact ih h

theorem nodup_listed (past : List Call) : (listed past).Nodup := (List.nodup_dedup _).filter _

theorem mem_listed : value ∈ listed past ↔ held past value = true := by
  rw [listed, List.mem_filter, List.mem_dedup, List.mem_reverse]
  exact and_iff_right_of_imp mem_arrivals

theorem contains_listed (past : List Call) (value : Int) :
    (listed past).contains value = held past value := by
  rw [Bool.eq_iff_iff, List.contains_iff_mem, mem_listed]

/-- A value at the end leaves the place that it had before. -/
theorem dedup_concat (values : List Int) (value : Int) :
    (values ++ [value]).dedup = values.dedup.filter (· ≠ value) ++ [value] := by
  induction values with
  | nil => simp
  | cons first values ih =>
    by_cases again : first ∈ values
    · rw [List.cons_append, List.dedup_cons_of_mem (List.mem_append_left _ again), ih,
        List.dedup_cons_of_mem again]
    · rw [List.cons_append, List.dedup_cons_of_notMem again]
      by_cases same : first = value
      · subst same
        rw [List.dedup_cons_of_mem (by simp), ih, List.filter_cons_of_neg (by simp)]
      · rw [List.dedup_cons_of_notMem (by simp [again, same]), ih,
          List.filter_cons_of_pos (by simpa using same), List.cons_append]

/-- The list behind a call is the one that the call makes of the list in front of it. -/
theorem listed_cons (call : Call) (past : List Call) :
    listed (call :: past) = call.after (listed past) := by
  cases call with
  | read | contains _ => rfl
  | add value =>
    rw [Call.after, contains_listed]
    cases there : held past value with
    | true =>
      -- Nothing comes in, and what is held stays so.
      have same : held (.add value :: past) = held past := by
        funext value'
        rw [held_cons, Call.puts?]
        split
        · next same => rw [← same, there]; rfl
        · rfl
      rw [listed, same, arrivals, there]
      rfl
    | false =>
      -- The value may have come in before and have been removed: just its last place counts.
      have kept : ∀ value' ∈ (arrivals past).reverse.dedup,
          (held (.add value :: past) value' && decide (value' ≠ value)) = held past value' := by
        intro value' _
        rw [held_cons, Call.puts?]
        by_cases same : value = value'
        · subst same
          simp [there]
        · simp [same, Ne.symm same]
      have here : held (.add value :: past) value = true := by
        rw [held_cons, Call.puts?, if_pos rfl]
        rfl
      rw [listed, arrivals, there, if_neg Bool.false_ne_true, List.reverse_cons, dedup_concat,
        List.filter_append, List.filter_filter, List.filter_congr kept, List.filter_singleton, here]
      rfl
  | remove value =>
    have left : ∀ value' ∈ (arrivals past).reverse.dedup,
        held (.remove value :: past) value' = (value' != value && held past value') := by
      intro value' _
      rw [held_cons, Call.puts?]
      by_cases same : value = value'
      · subst same
        simp
      · simp [same, Ne.symm same]
    rw [Call.after, (nodup_listed past).erase_eq_filter, listed, listed, List.filter_filter]
    exact List.filter_congr left

/-- A value that is not there comes in at the end, and there is nothing of it to remove. -/
theorem listed_of_absent (absent : value ∉ listed past) :
    listed (.add value :: past) = listed past ++ [value] ∧
      listed (.remove value :: past) = listed past := by
  have missing : (listed past).contains value = false := by
    rwa [← Bool.not_eq_true, List.contains_iff_mem]
  rw [listed_cons, listed_cons, Call.after, Call.after, missing]
  exact ⟨rfl, List.erase_of_not_mem absent⟩

/-- A value that is there is not added again, and removing it leaves the others in their order. -/
theorem listed_of_split {front behind : List Int} (there : listed past = front ++ value :: behind) :
    listed (.add value :: past) = listed past ∧
      listed (.remove value :: past) = front ++ behind := by
  have nodup := nodup_listed past
  rw [there] at nodup
  have first : value ∉ front := by
    intro mem
    exact (List.nodup_append.1 nodup).2.2 value mem value List.mem_cons_self rfl
  rw [listed_cons, listed_cons, Call.after, Call.after, there]
  refine ⟨if_pos (by simp), ?_⟩
  rw [List.erase_append_right _ first, List.erase_cons_head]

/-! ### Moves -/

/-- What can happen to a list. -/
inductive Move where
  | call (call : Call)
  | clearCache
  | flush
  /-- Anything that is not a call of the list. -/
  | other (s : Script Unit)

variable {σ : Type} [ByteStore σ]

namespace Move

/-- The numbers of calls fit into 32 bits, nothing else writes the field of the list, and the byte
store takes what is written. -/
def Allowed (view : StoreView σ) (id : FileId) (name : Option String) (f : FieldStore σ) :
    Move → Prop
  | call asked =>
    asked.Fits ∧ view.TakesAll ((asked.script id name).writes (view.contents f.store))
  | clearCache | flush => True
  | other s => s.Spares (· = .list id name) ∧ view.TakesAll (s.writes (view.contents f.store))

/-- The field store after a move. -/
def apply (id : FileId) (name : Option String) (f : FieldStore σ) : Move → FieldStore σ
  | call asked => leftBy (FieldStore.perform (asked.script id name) f)
  | clearCache => f.clearCache
  | flush => leftBy (FieldStore.flush f)
  | other s => leftBy (FieldStore.perform s f)

/-- The call that the move is, if it is one. -/
def call? : Move → Option Call
  | call asked => some asked
  | clearCache | flush | other _ => none

end Move

/-- Field stores that some run leads to in which the list had no field at first, with the calls of
the run, latest first. -/
inductive Reachable (view : StoreView σ) (id : FileId) (name : Option String) :
    List Call → FieldStore σ → Prop where
  | start {f : FieldStore σ} {c : Contents} (shown : f.Shows view c)
      (unset : c (Key.list id name).text.toUTF8 = none) : Reachable view id name [] f
  | step {past : List Call} {f : FieldStore σ} (m : Move) (h : Reachable view id name past f)
      (allowed : m.Allowed view id name f) :
      Reachable view id name (m.call?.toList ++ past) (m.apply id name f)

/-! ### The invariant of a run -/

/-- The field of the list has the values that were added and not removed. -/
structure Kept (view : StoreView σ) (id : FileId) (name : Option String) (past : List Call)
    (f : FieldStore σ) : Prop where
  shows : f.Shows view (view.contents f.store)
  stored : StoredIn (view.contents f.store) id name (listed past)

variable {view : StoreView σ} {f : FieldStore σ}

theorem kept_of_shows (shown : f.Shows view c) (stored : StoredIn c id name (listed past)) :
    Kept view id name past f := by
  obtain rfl := shown.contents
  exact ⟨shown, stored⟩

/-- A call answers from the values that were added and not removed. -/
theorem Kept.call (h : Kept view id name past f) {call : Call} (fits : call.Fits)
    (takes : view.TakesAll ((call.script id name).writes (view.contents f.store))) :
    ∃ f', FieldStore.perform (call.script id name) f = .ok (call.answer (listed past)) f' ∧
      Kept view id name (call :: past) f' := by
  obtain ⟨c', run, stored⟩ := h.stored.run_call fits
  obtain ⟨f', performed, shown⟩ := FieldStore.perform_ok h.shows run takes
  rw [← listed_cons] at stored
  exact ⟨f', performed, kept_of_shows shown stored⟩

/-- A call that changes nothing writes nothing. -/
theorem Kept.unwritten (h : Kept view id name past f) {call : Call}
    (takes : view.TakesAll ((call.script id name).writes (view.contents f.store)))
    (same : call.changes (listed past) = false) :
    FieldStore.applied (call.script id name) f = [] ∧
      view.contents (leftBy (FieldStore.perform (call.script id name) f)).store =
        view.contents f.store := by
  have nothing := h.stored.writes_call same
  have shown := (FieldStore.perform_left h.shows takes).contents
  rw [Script.left_eq_putAll, nothing] at shown
  exact ⟨(FieldStore.applied_shows h.shows takes).trans nothing, shown⟩

/-- Every move keeps the field as the calls say. -/
theorem Kept.step (h : Kept view id name past f) {m : Move} (allowed : m.Allowed view id name f) :
    Kept view id name (m.call?.toList ++ past) (m.apply id name f) := by
  cases m with
  | call call =>
    obtain ⟨f', performed, kept⟩ := h.call allowed.1 allowed.2
    rw [Move.apply, performed]
    exact kept
  | clearCache =>
    rw [Move.apply]
    exact kept_of_shows h.shows.clearCache h.stored
  | flush =>
    obtain ⟨f', shown, flushed⟩ := FieldStore.flush_shows h.shows
    rw [Move.apply, flushed]
    exact kept_of_shows shown h.stored
  | other s =>
    have changes := allowed.1.changes (view.contents f.store)
    exact kept_of_shows (FieldStore.perform_left h.shows allowed.2)
      (h.stored.frame changes fun elsewhere => elsewhere rfl)

theorem Reachable.kept (h : Reachable view id name past f) : Kept view id name past f := by
  induction h with
  | start shown unset =>
    refine kept_of_shows shown ⟨List.forall_mem_nil _, Or.inl ⟨?_, rfl⟩⟩
    rw [Contents.read, unset]
  | step m _ allowed ih => exact ih.step allowed

/-! ### What a list holds -/

/-- Along every run from a list without a field, the list has the values whose last change was an
addition, each once, in the order in which they came in. A call answers from them, and one that
changes nothing writes nothing. What is added comes in at the end unless it is there; what is removed
leaves the others in their order. And where a list's field holds a text that is neither empty nor
spells numbers between commas, each call reports it and the store stays as it is. -/
theorem lists_hold_what_was_added (h : Reachable view id name past f) :
    (listed past).Nodup ∧ (∀ value, value ∈ listed past ↔ held past value = true) ∧
    (∀ call : Call, call.Fits →
      view.TakesAll ((call.script id name).writes (view.contents f.store)) →
      ∃ f', FieldStore.perform (call.script id name) f = .ok (call.answer (listed past)) f' ∧
        Reachable view id name (call :: past) f' ∧
        (call.changes (listed past) = false → FieldStore.applied (call.script id name) f = [] ∧
          view.contents f'.store = view.contents f.store)) ∧
    (∀ value, value ∉ listed past → listed (.add value :: past) = listed past ++ [value] ∧
      listed (.remove value :: past) = listed past) ∧
    (∀ value front behind, listed past = front ++ value :: behind →
      listed (.add value :: past) = listed past ∧
      listed (.remove value :: past) = front ++ behind) ∧
    (∀ (f : FieldStore σ) (c : Contents) (raw : String), f.Shows view c →
      c.read (Key.list id name).text = .ok (some raw) → raw ≠ "" → ¬ NumberList raw →
      ∀ call : Call, ∃ fault f', FieldStore.perform (call.script id name) f =
          .error (.error (.corruptValue (Key.list id name).text fault)) f' ∧
        FieldStore.applied (call.script id name) f = [] ∧ f'.Shows view c) := by
  have kept := h.kept
  refine ⟨nodup_listed past, fun value => mem_listed, ?_, fun value => listed_of_absent,
    fun value front behind => listed_of_split, ?_⟩
  · intro call fits takes
    obtain ⟨f', performed, kept'⟩ := kept.call fits takes
    have left : leftBy (FieldStore.perform (call.script id name) f) = f' := by
      rw [performed]
      rfl
    refine ⟨f', performed, left ▸ h.step (.call call) ⟨fits, takes⟩, fun same => ?_⟩
    exact left ▸ kept.unwritten takes same
  · intro f c raw shown there filled bad call
    obtain ⟨fault, damaged⟩ := parse_eq_error (Key.list id name).text filled bad
    obtain ⟨run, nothing⟩ := call.run_damaged there damaged
    obtain ⟨f', refused⟩ := FieldStore.perform_refused shown run nothing
    exact ⟨fault, f', refused⟩

/-- Of three numbers the first is removed. A list whose text holds an empty item answers nothing and
takes nothing. -/
theorem removal_and_damage :
    ∃ f f₁ f₂ f₃ : FieldStore Memory, ∃ fault,
      Reachable Memory.view 3 none [.remove 11, .add (-5), .add 1, .add 11] f ∧
      FieldStore.perform (IntList.read 3 none) f = .ok [1, -5] f₁ ∧
      FieldStore.perform (Script.put (Key.list 3 none).text "1,,2") f₁ = .ok () f₂ ∧
      FieldStore.perform (add 3 none 7) f₂ =
        .error (.error (.corruptValue (Key.list 3 none).text fault)) f₃ := by
  have unset : Memory.view.contents Memory.empty (Key.list 3 none).text.toUTF8 = none :=
    Std.TreeMap.getElem?_emptyc
  have all : ∀ writes, Memory.view.TakesAll writes := fun _ _ _ => trivial
  have start := Reachable.start shows_empty unset
  have add_first := start.step (.call (.add 11)) ⟨⟨by decide, by decide⟩, all _⟩
  have add_second := add_first.step (.call (.add 1)) ⟨⟨by decide, by decide⟩, all _⟩
  have add_third := add_second.step (.call (.add (-5))) ⟨⟨by decide, by decide⟩, all _⟩
  have run := add_third.step (.call (.remove 11)) ⟨⟨by decide, by decide⟩, all _⟩
  obtain ⟨-, -, answers, -, -, damaged⟩ := lists_hold_what_was_added run
  obtain ⟨f₁, answered, later, -⟩ := answers .read trivial (all _)
  obtain ⟨f₂, put, shown⟩ := FieldStore.perform_ok later.kept.shows
    (Script.run_put (Key.list 3 none).text "1,,2" _) (all _)
  have bad : ¬ NumberList "1,,2" := by
    intro list
    obtain ⟨values, parsed⟩ := list.parse ""
    have refused : parse "" "1,,2" = .error (.corruptValue "" (.integer .empty "")) := by decide
    rw [refused] at parsed
    cases parsed
  obtain ⟨fault, f₃, refused, -⟩ := damaged f₂ _ "1,,2" shown
    (by rw [Contents.read_put, if_pos rfl]) (by decide) bad (.add 7)
  exact ⟨_, f₁, f₂, f₃, fault, run, answered, put, refused⟩

end IntList

end FlatStore
