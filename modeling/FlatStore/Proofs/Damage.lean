import FlatStore.Proofs.StoreLaws

/-! # Unreadable fields

    What a script does once some fields cannot be read any more: they are gone,
    or their bytes are no text, or their text is none of their kind.

    * `Key.Readable` says for each field what it may hold, and whether it has to
      be there. `Contents.Damaged` is about contents that are another's but for
      fields that cannot be read.
    * A script is wary (`Script.Wary`) if each of its reads ends it, with an
      error that names the field, where the field is not readable. Behind a
      step that is wary it may be any wary script (`Wary.bind`).
    * A wary script does on damaged contents what it does on the sound ones, up
      to the first read of a damaged field, which it reports
      (`Wary.run_damaged`).
-/

namespace FlatStore

/-! ### What a field may hold -/

namespace Key

/-- The texts that a field may hold. -/
def Admits : Key → String → Prop
  | .node _ _ .height, raw | .node _ _ .balance, raw => ∃ n, Integer.signed32 raw = .ok n
  | .node _ _ .left, raw | .node _ _ .right, raw | .node _ _ .parent, raw | .root _, raw =>
    ∃ link, Link.parse? raw = some link
  | .size _, raw | .highWater _, raw | .freeCount _, raw | .freeSlot _ _, raw =>
    ∃ n, Integer.unsigned64 raw = .ok n
  | _, _ => True

/-- The fields that have to be there. -/
def Required : Key → Prop
  | .node _ _ _ | .freeSlot _ _ => True
  | _ => False

/-- Whether a field can be used as it was found. -/
def Readable (k : Key) : Option String → Prop
  | none => ¬ k.Required
  | some raw => k.Admits raw

end Key

namespace Contents

variable {D : Key → Prop} {c c' : Contents}

/-- The field is not readable: its bytes are no text, or the text is none that it may hold, or it is
not there although it has to be. -/
def Spoilt (c : Contents) (k : Key) : Prop :=
  ∀ found, c.read k.text = .ok found → ¬ k.Readable found

/-- The contents `c'` are those of `c`, but for fields in `D` that are spoilt. -/
def Damaged (D : Key → Prop) (c c' : Contents) : Prop :=
  ∀ key, c' key = c key ∨ ∃ k, D k ∧ key = k.text.toUTF8 ∧ c'.Spoilt k

/-- Bytes that are no text are reported under their key. -/
theorem exists_of_read_error {key : String} {e : Error} (h : c.read key = .error e) :
    ∃ fault, e = .corruptValue key fault := by
  unfold read at h
  split at h
  · cases h
  · split at h
    · cases h
    · cases h
      exact ⟨_, rfl⟩

/-- A field that holds a text it may not hold. -/
theorem damaged_put {k : Key} {value : String} (hk : D k) (bad : ¬ k.Admits value)
    (c : Contents) : Damaged D c (c.put k.text value) := by
  intro key
  by_cases same : key = k.text.toUTF8
  · refine Or.inr ⟨k, hk, same, fun found read => ?_⟩
    rw [read_put, if_pos rfl] at read
    cases read
    exact bad
  · exact Or.inl (put_of_ne same)

/-- What was written over is sound again. -/
theorem Damaged.put (h : Damaged D c c') (key value : String) :
    Damaged D (c.put key value) (c'.put key value) := by
  intro key'
  by_cases same : key' = key.toUTF8
  · subst same
    exact Or.inl (by rw [put_self, put_self])
  · rw [put_of_ne same, put_of_ne same]
    refine (h key').imp_right ?_
    rintro ⟨k, hk, rfl, spoilt⟩
    refine ⟨k, hk, rfl, fun found read => spoilt found ?_⟩
    rwa [read_put, if_neg fun he => same (congrArg String.toUTF8 he)] at read

end Contents

/-! ### Wary scripts -/

namespace Script

variable {α β : Type} {D : Key → Prop} {c c' : Contents}

/-- What a read ends with that found a field unreadable. -/
def Reports (k : Key) (s : Script α) : Prop :=
  ∃ fault, s = .fail (.error (.corruptValue k.text fault))

/-- Each read of the script is one of a namespace key, and reports it if it is not readable. -/
def Wary : Script α → Prop
  | .done _ => True
  | .fail _ => True
  | .read key next =>
    (∃ k : Key, k.Local ∧ k.text = key ∧ ∀ found, ¬ k.Readable found → (next found).Reports k) ∧
      ∀ found, (next found).Wary
  | .write _ _ next => next.Wary

theorem Wary.bind {s : Script α} {f : α → Script β} (h : s.Wary) (hf : ∀ a, (f a).Wary) :
    (s >>= f).Wary := by
  show (s.bind f).Wary
  induction s with
  | done a => exact hf a
  | fail => trivial
  | read key next ih =>
    obtain ⟨⟨k, hk, text, reports⟩, rest⟩ := h
    refine ⟨⟨k, hk, text, fun found bad => ?_⟩, fun found => ih found (rest found)⟩
    obtain ⟨fault, same⟩ := reports found bad
    exact ⟨fault, congrArg (Script.bind · f) same⟩
  | write key value next ih => exact ih h

/-- A read with what follows it. -/
theorem wary_get {k : Key} (hk : k.Local) {next : Option String → Script α}
    (reports : ∀ found, ¬ k.Readable found → (next found).Reports k)
    (rest : ∀ found, (next found).Wary) : (get k.text >>= next).Wary :=
  ⟨⟨k, hk, rfl, reports⟩, rest⟩

/-- A read of a number with what follows it. -/
theorem wary_getParsed {k : Key} (hk : k.Local) {parse : String → Except Integer.Fault β}
    (admits : ∀ raw value, parse raw = .ok value → k.Admits raw) {next : Option β → Script α}
    (absent : k.Required → (next none).Reports k) (rest : ∀ found, (next found).Wary) :
    (getParsed parse k.text >>= next).Wary := by
  rw [getParsed, LawfulMonad.bind_assoc]
  refine wary_get hk ?_ ?_
  · intro found bad
    cases found with
    | none => exact absent (Classical.not_not.1 bad)
    | some raw =>
      cases parsed : parse raw with
      | ok value => exact absurd (admits raw value parsed) bad
      | error fault => exact ⟨.integer fault raw, by simp only [parsed]; rfl⟩
  · intro found
    cases found with
    | none => exact rest none
    | some raw =>
      simp only
      split
      · exact rest (some _)
      · trivial

theorem wary_put (key value : String) : (put key value).Wary := trivial

/-- How a run on damaged contents ends: as on the sound ones, or with a report of a damaged field.
-/
inductive Outcome (D : Key → Prop) (sound : EStateM.Result Failure Contents α) :
    EStateM.Result Failure Contents α → Prop where
  | same {result} (h : SameOutcome (Contents.Damaged D) sound result) : Outcome D sound result
  | reported {k : Key} (damaged : D k) (fault : ValueFault) (c : Contents) :
      Outcome D sound (.error (.error (.corruptValue k.text fault)) c)

/-- On damaged contents a wary script does as on the sound ones, or it reports a damaged field; and
it writes no more. -/
theorem Wary.run_damaged {s : Script α} (h : s.Wary) (damaged : Contents.Damaged D c c') :
    Outcome D (s.run c) (s.run c') ∧ s.writes c' <+: s.writes c := by
  induction s generalizing c c' with
  | done a => exact ⟨.same (.ok a damaged), List.prefix_rfl⟩
  | fail e => exact ⟨.same (.error e damaged), List.prefix_rfl⟩
  | read key next ih =>
    obtain ⟨⟨k, hk, rfl, reports⟩, rest⟩ := h
    rcases damaged k.text.toUTF8 with same | ⟨k', hk', text, spoilt⟩
    · have read : c'.read k.text = c.read k.text := by rw [Contents.read, Contents.read, same]
      simp only [run, writes, read]
      cases c.read k.text with
      | ok found => exact ih found (rest found) damaged
      | error e => exact ⟨.same (.error _ damaged), List.prefix_rfl⟩
    · -- The field is damaged, and whatever is found there is reported.
      obtain rfl := (Key.text_inj hk).1 (Contents.toUTF8_inj.1 text)
      simp only [run, writes]
      cases found : c'.read k.text with
      | ok raw =>
        obtain ⟨fault, ends⟩ := reports raw (spoilt raw found)
        simp only [ends, run, writes]
        exact ⟨.reported hk' fault c', List.nil_prefix⟩
      | error e =>
        obtain ⟨fault, rfl⟩ := Contents.exists_of_read_error found
        exact ⟨.reported hk' fault c', List.nil_prefix⟩
  | write key value next ih =>
    obtain ⟨outcome, fewer⟩ := ih h (damaged.put key value)
    exact ⟨outcome, List.prefix_cons_inj _ |>.2 fewer⟩

end Script

end FlatStore
