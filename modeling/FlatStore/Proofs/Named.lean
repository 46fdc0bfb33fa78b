import FlatStore.Counter
import FlatStore.IntList
import FlatStore.Proofs.Contents
import FlatStore.Proofs.KeyOrder

/-! # Named entries on plain contents

    What counters and lists do to the field that they are.

    * **Counters**: the field is absent, or holds a number in range; the number
      is what counting goes on from.
    * **Lists**: the field is absent, or holds the numbers between commas, so
      appending to the text appends a number.
-/

namespace FlatStore

variable {c : Contents} {id : FileId}

/-! ### Counters -/

namespace Counter

variable {extra : Option String} {value : Int}

/-- The number fits into 64 bits. -/
def Fits (value : Int) : Prop := -(Word.half64 : Int) ≤ value ∧ value < Word.half64

/-- The counter stands at a value. -/
structure StoredIn (c : Contents) (id : FileId) (extra : Option String) (value : Int) : Prop where
  fits : Fits value
  field : c.read (Key.counter id extra).text = .ok none ∧ value = 0 ∨
    c.read (Key.counter id extra).text = .ok (some (toString value))

theorem fits_saturate (n : Int) : Fits (saturate n) := by
  simp only [Fits, saturate, Word.half64]
  omega

theorem StoredIn.run_read (h : StoredIn c id extra value) :
    (read id extra).run c = .ok value c := by
  rcases h.field with ⟨absent, rfl⟩ | there
  · rw [read, Script.run_bind_ok (Script.run_getParsed_absent absent)]
    rfl
  · have parsed : Integer.signed64 (toString value) = .ok value :=
      Integer.intWithin_toString h.fits.1 h.fits.2
    rw [read, Script.run_bind_ok (Script.run_getParsed_ok there parsed)]
    rfl

/-- A counter that was set stands at that value. -/
theorem run_write (c : Contents) (id : FileId) (extra : Option String) (fits : Fits value) :
    ∃ c', (write id extra value).run c = .ok () c' ∧ StoredIn c' id extra value := by
  refine ⟨_, rfl, ⟨fits, Or.inr ?_⟩⟩
  rw [Contents.read_put, if_pos rfl]

theorem StoredIn.run_add (h : StoredIn c id extra value) (delta : Int) :
    ∃ c', (add id extra delta).run c = .ok (saturate (value + delta)) c' ∧
      StoredIn c' id extra (saturate (value + delta)) := by
  obtain ⟨c', run, stored⟩ := run_write c id extra (fits_saturate (value + delta))
  refine ⟨c', ?_, stored⟩
  rw [add, Script.run_bind_ok h.run_read, Script.run_bind_ok run]
  rfl

end Counter

/-! ### Lists -/

namespace IntList

variable {name : Option String} {values : List Int} {value : Int}

/-- The number fits into 32 bits. -/
def Fits (value : Int) : Prop := -(Word.half32 : Int) ≤ value ∧ value < Word.half32

/-- The list holds these numbers, in this order. -/
structure StoredIn (c : Contents) (id : FileId) (name : Option String) (values : List Int) :
    Prop where
  fits : ∀ value ∈ values, Fits value
  field : c.read (Key.list id name).text = .ok none ∧ values = [] ∨
    c.read (Key.list id name).text = .ok (some (join values))

/-! ### The stored text -/

theorem comma_not_mem_numeral (value : Int) : ',' ∉ (toString value).toList :=
  (Integer.spells_toString value).comma_not_mem

theorem numeral_ne_empty (value : Int) : toString value ≠ "" :=
  (Integer.spells_toString value).sign_or_digit.1

theorem join_singleton (value : Int) : join [value] = toString value := by
  simp [join, Text.joinCommas]

theorem join_cons_cons (value next : Int) (values : List Int) :
    join (value :: next :: values) = toString value ++ "," ++ join (next :: values) := by
  simp [join, Text.joinCommas, String.intercalate_cons_cons]

theorem isEmpty_join (values : List Int) : (join values).isEmpty = values.isEmpty := by
  cases values with
  | nil => rfl
  | cons value values =>
    have filled : join (value :: values) ≠ "" := by
      cases values with
      | nil =>
        rw [join_singleton]
        exact numeral_ne_empty value
      | cons next values =>
        rw [join_cons_cons, String.append_assoc]
        intro empty
        have := congrArg String.toList empty
        simp at this
    rw [List.isEmpty_cons, Bool.eq_false_iff, ne_eq, String.isEmpty_iff]
    exact filled

/-- Appending to the text appends to the list. -/
theorem join_append (some_values : values ≠ []) (value : Int) :
    join (values ++ [value]) = join values ++ "," ++ toString value := by
  induction values with
  | nil => exact absurd rfl some_values
  | cons first values ih =>
    cases values with
    | nil => rw [List.singleton_append, join_cons_cons, join_singleton, join_singleton]
    | cons next values =>
      rw [List.cons_append, List.cons_append, join_cons_cons, ← List.cons_append,
        ih (List.cons_ne_nil _ _), join_cons_cons]
      simp only [String.append_assoc]

/-- The numbers are read back from their text. -/
theorem parse_join (key : String) (fits : ∀ value ∈ values, Fits value) :
    parse key (join values) = .ok values := by
  unfold parse
  rw [isEmpty_join]
  cases values with
  | nil => rfl
  | cons value values =>
    have parts : Text.splitCommas (join (value :: values)) = (value :: values).map toString := by
      refine KeyOrder.splitCommas_joinCommas ?_ (by simp)
      intro s hs
      obtain ⟨n, -, rfl⟩ := List.mem_map.1 hs
      exact comma_not_mem_numeral n
    rw [List.isEmpty_cons, if_neg (by simp), parts]
    clear parts
    generalize value :: values = values at fits
    induction values with
    | nil => rfl
    | cons value values ih =>
      have here : Integer.signed32 (toString value) = .ok value := by
        have bounds := fits value List.mem_cons_self
        exact Integer.signed32_toString bounds.1 bounds.2
      rw [List.map_cons, List.mapM_cons, ih fun v hv => fits v (List.mem_cons_of_mem _ hv)]
      simp only [here]
      rfl

/-! ### The operations -/

namespace StoredIn

/-- The text of the field, empty without one, is that of the list. -/
theorem text_eq (h : StoredIn c id name values) : ∃ found : Option String,
    c.read (Key.list id name).text = .ok found ∧ found.getD "" = join values := by
  rcases h.field with ⟨absent, rfl⟩ | there
  · exact ⟨none, absent, rfl⟩
  · exact ⟨some (join values), there, rfl⟩

theorem run_parsed (h : StoredIn c id name values) (key : String) :
    (parsed key (join values)).run c = .ok values c := by
  rw [parsed, parse_join key h.fits]
  rfl

theorem run_read (h : StoredIn c id name values) : (read id name).run c = .ok values c := by
  rcases h.field with ⟨absent, rfl⟩ | there
  · rw [read, Script.run_bind_ok (Script.run_get absent)]
    rfl
  · rw [read, Script.run_bind_ok (Script.run_get there)]
    exact h.run_parsed _

theorem run_contains (h : StoredIn c id name values) (value : Int) :
    (contains id name value).run c = .ok (values.contains value) c := by
  rw [contains, Script.run_bind_ok h.run_read]
  rfl

/-- The list after its text was written. -/
theorem of_put (c : Contents) (id : FileId) (name : Option String)
    (fits : ∀ value ∈ values, Fits value) :
    StoredIn (c.put (Key.list id name).text (join values)) id name values := by
  refine ⟨fits, Or.inr ?_⟩
  rw [Contents.read_put, if_pos rfl]

/-- Adding appends a number that is not there, and changes nothing if it is. -/
theorem run_add (h : StoredIn c id name values) (fits : Fits value) :
    ∃ c', (add id name value).run c = .ok (!values.contains value) c' ∧
      StoredIn c' id name (if values.contains value then values else values ++ [value]) := by
  obtain ⟨found, read, text⟩ := h.text_eq
  rw [add]
  simp only
  rw [Script.run_bind_ok (Script.run_get read), text, Script.run_bind_ok (h.run_parsed _)]
  cases there : values.contains value with
  | true => exact ⟨c, rfl, h⟩
  | false =>
    have grown : (if (join values).isEmpty then toString value
        else join values ++ "," ++ toString value) = join (values ++ [value]) := by
      rw [isEmpty_join]
      cases values with
      | nil => rw [List.isEmpty_nil, if_pos rfl, List.nil_append, join_singleton]
      | cons first values =>
        rw [List.isEmpty_cons, if_neg (by simp), join_append (List.cons_ne_nil _ _)]
    refine ⟨c.put (Key.list id name).text (join (values ++ [value])), ?_, of_put c id name ?_⟩
    · simp only [Bool.false_eq_true, if_false, grown]
      rfl
    · intro v hv
      rcases List.mem_append.1 hv with hv | hv
      · exact h.fits v hv
      · rwa [List.mem_singleton.1 hv]

/-- Removing takes out the number if it is there. -/
theorem run_remove (h : StoredIn c id name values) (value : Int) :
    ∃ c', (remove id name value).run c = .ok (values.contains value) c' ∧
      StoredIn c' id name (values.erase value) := by
  rcases h.field with ⟨absent, rfl⟩ | there
  · refine ⟨c, ?_, h⟩
    rw [remove, Script.run_bind_ok (Script.run_get absent)]
    rfl
  · rw [remove, Script.run_bind_ok (Script.run_get there)]
    simp only
    rw [Script.run_bind_ok (h.run_parsed _)]
    cases held : values.contains value with
    | true =>
      refine ⟨_, rfl, of_put c id name ?_⟩
      exact fun v hv => h.fits v (List.mem_of_mem_erase hv)
    | false =>
      have same : values.erase value = values :=
        List.erase_of_not_mem fun mem => by simp [mem] at held
      rw [same]
      exact ⟨c, rfl, h⟩

end StoredIn

end IntList

end FlatStore
