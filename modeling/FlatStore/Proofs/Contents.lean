import FlatStore.FieldStore
import FlatStore.Proofs.KeyText

/-! # Scripts on plain contents

    What a byte store holds is a partial map from keys to values. This module
    runs scripts on such maps, with no cache and no way for a write to fail,
    and reads fields off them by kind:

    * `text?`, `link?`, `number?`: a field that has to be there;
    * `count?`: a number that counts as zero until it is written.

    `Changes` bounds what a script may have touched: the contents before and
    after differ at most under the given keys.
-/

namespace FlatStore

/-- The values that a byte store holds under some of the keys. -/
abbrev Contents := Bytes → Option Bytes

namespace Contents

/-! ### Reading and writing -/

/-- The contents after a field was written. -/
def put (c : Contents) (key value : String) : Contents := fun k =>
  if k = key.toUTF8 then some value.toUTF8 else c k

/-- The text of a field, or what is wrong with it. -/
def read (c : Contents) (key : String) : Except Error (Option String) :=
  match c key.toUTF8 with
  | none => .ok none
  | some bytes =>
    match Utf8.decode bytes with
    | .ok text => .ok (some text)
    | .error fault => .error (.corruptValue key (.utf8 fault))

/-- The text of a field that is there and readable. -/
def text? (c : Contents) (k : Key) : Option String :=
  match c.read k.text with
  | .ok found => found
  | .error _ => none

/-- The link in a field. -/
def link? (c : Contents) (k : Key) : Option Link := (c.text? k).bind Link.parse?

/-- The 32-bit number in a field. -/
def number? (c : Contents) (k : Key) : Option Int :=
  (c.text? k).bind fun raw => (Integer.signed32 raw).toOption

/-- The 64-bit number in a field, zero if there is no field. -/
def count? (c : Contents) (k : Key) : Option Nat :=
  match c.read k.text with
  | .ok none => some 0
  | .ok (some raw) => (Integer.unsigned64 raw).toOption
  | .error _ => none

theorem toUTF8_inj {a b : String} : a.toUTF8 = b.toUTF8 ↔ a = b := by
  simp [String.toByteArray_inj]

theorem put_of_ne {c : Contents} {key value : String} {k : Bytes} (h : k ≠ key.toUTF8) :
    c.put key value k = c k := if_neg h

@[simp]
theorem put_self (c : Contents) (key value : String) :
    c.put key value key.toUTF8 = some value.toUTF8 := if_pos rfl

theorem read_put (c : Contents) (key value key' : String) :
    (c.put key value).read key' = if key' = key then .ok (some value) else c.read key' := by
  by_cases h : key' = key
  · subst h
    rw [if_pos rfl, read, put_self]
    simp only [Utf8.decode_toUTF8]
  · have : key'.toUTF8 ≠ key.toUTF8 := fun he => h (toUTF8_inj.1 he)
    rw [if_neg h, read, put_of_ne this, read]

/-! ### Fields after a write -/

@[simp]
theorem text?_put {c : Contents} {k k' : Key} (value : String) (hk : k.Local) :
    (c.put k.text value).text? k' = if k = k' then some value else c.text? k' := by
  rw [text?, read_put]
  by_cases h : k = k'
  · simp [h]
  · have : k'.text ≠ k.text := fun he => h ((Key.text_inj hk).1 he.symm)
    rw [if_neg this, if_neg h, text?]

@[simp]
theorem link?_put {c : Contents} {k k' : Key} (value : String) (hk : k.Local) :
    (c.put k.text value).link? k' = if k = k' then Link.parse? value else c.link? k' := by
  rw [link?, text?_put value hk]
  by_cases h : k = k' <;> simp [h, link?]

@[simp]
theorem number?_put {c : Contents} {k k' : Key} (value : String) (hk : k.Local) :
    (c.put k.text value).number? k' =
      if k = k' then (Integer.signed32 value).toOption else c.number? k' := by
  rw [number?, text?_put value hk]
  by_cases h : k = k' <;> simp [h, number?]

@[simp]
theorem count?_put {c : Contents} {k k' : Key} (value : String) (hk : k.Local) :
    (c.put k.text value).count? k' =
      if k = k' then (Integer.unsigned64 value).toOption else c.count? k' := by
  rw [count?, read_put]
  by_cases h : k = k'
  · simp [h]
  · have : k'.text ≠ k.text := fun he => h ((Key.text_inj hk).1 he.symm)
    rw [if_neg this, if_neg h, count?]

/-! ### What a script may have touched -/

/-- Among the keys, `c'` differs from `c` at most under those in `P`. -/
def Changes (P : Key → Prop) (c c' : Contents) : Prop :=
  ∀ k : Key, ¬ P k → c' k.text.toUTF8 = c k.text.toUTF8

namespace Changes

variable {P Q : Key → Prop} {c c' c'' : Contents}

theorem refl (P : Key → Prop) (c : Contents) : Changes P c c := fun _ _ => rfl

theorem trans (h : Changes P c c') (h' : Changes P c' c'') : Changes P c c'' := by
  intro k hk
  rw [h' k hk, h k hk]

theorem mono (h : Changes P c c') (le : ∀ key, P key → Q key) : Changes Q c c' :=
  fun k hk => h k fun hkey => hk (le k hkey)

theorem put {k : Key} (h : Changes P c c') (hk : P k) (value : String)
    (hl : k.Local := by simp) : Changes P c (c'.put k.text value) := by
  intro k' hk'
  have other : k'.text.toUTF8 ≠ k.text.toUTF8 := by
    intro he
    have : k = k' := (Key.text_inj hl).1 (toUTF8_inj.1 he.symm)
    exact hk' (this ▸ hk)
  rw [put_of_ne other, h k' hk']

theorem single (c : Contents) (k : Key) (value : String) (hl : k.Local := by simp) :
    Changes (· = k) c (c.put k.text value) :=
  (refl (· = k) c).put rfl value hl

/-- A write to none of the keys in `P`. -/
theorem of_spared {key : String} (spared : ∀ k, P k → k.text ≠ key) (c : Contents)
    (value : String) : Changes (fun k => ¬ P k) c (c.put key value) := by
  intro k hk
  exact put_of_ne fun he => spared k (Classical.not_not.1 hk) (toUTF8_inj.1 he)

variable {k : Key} (h : Changes P c c') (hk : ¬ P k)
include h hk

theorem read_eq : c'.read k.text = c.read k.text := by
  rw [read, read, h k hk]

theorem text?_eq : c'.text? k = c.text? k := by
  rw [text?, text?, h.read_eq hk]

theorem link?_eq : c'.link? k = c.link? k := by
  rw [link?, link?, h.text?_eq hk]

theorem number?_eq : c'.number? k = c.number? k := by
  rw [number?, number?, h.text?_eq hk]

theorem count?_eq : c'.count? k = c.count? k := by
  rw [count?, count?, h.read_eq hk]

end Changes

end Contents

/-! ### Running scripts -/

namespace Script

variable {α β : Type}

/-- Run a script on plain contents. -/
def run : Script α → Contents → EStateM.Result Failure Contents α
  | .done result, c => .ok result c
  | .fail failure, c => .error failure c
  | .read key next, c =>
    match c.read key with
    | .ok found => (next found).run c
    | .error e => .error (.error e) c
  | .write key value next, c => next.run (c.put key value)

@[simp]
theorem run_pure (a : α) (c : Contents) : (pure a : Script α).run c = .ok a c := rfl

theorem run_bind (s : Script α) (f : α → Script β) (c : Contents) :
    (s >>= f).run c =
      match s.run c with
      | .ok a c => (f a).run c
      | .error e c => .error e c := by
  show (s.bind f).run c = _
  induction s generalizing c with
  | done | fail => rfl
  | read key next ih =>
    simp only [bind, run]
    cases c.read key with
    | ok found => exact ih found c
    | error e => rfl
  | write key value next ih => exact ih (c.put key value)

/-- Behind a step that succeeds, a script goes on from where the step ended. -/
theorem run_bind_ok {s : Script α} {f : α → Script β} {c c' : Contents} {a : α}
    (h : s.run c = .ok a c') : (s >>= f).run c = (f a).run c' := by
  rw [run_bind, h]

/-- Behind a step that fails, a script ends. -/
theorem run_bind_error {s : Script α} {f : α → Script β} {c c' : Contents} {e : Failure}
    (h : s.run c = .error e c') : (s >>= f).run c = .error e c' := by
  rw [run_bind, h]

theorem run_map_ok {s : Script α} {f : α → β} {c c' : Contents} {a : α}
    (h : s.run c = .ok a c') : (f <$> s).run c = .ok (f a) c' := by
  rw [← bind_pure_comp, run_bind_ok h]
  rfl

@[simp]
theorem run_put (key value : String) (c : Contents) :
    (put key value).run c = .ok () (c.put key value) := rfl

theorem run_get {c : Contents} {key : String} {found : Option String}
    (h : c.read key = .ok found) : (get key).run c = .ok found c := by
  simp [get, run, h]

theorem run_get_text {c : Contents} {k : Key} {text : String} (h : c.text? k = some text) :
    (get k.text).run c = .ok (some text) c := by
  apply run_get
  unfold Contents.text? at h
  split at h
  · next found hr => rw [hr, h]
  · cases h

theorem run_getParsed_absent {c : Contents} {key : String}
    {parse : String → Except Integer.Fault α} (h : c.read key = .ok none) :
    (getParsed parse key).run c = .ok none c := by
  rw [getParsed, run_bind_ok (run_get h)]
  rfl

theorem run_getParsed_ok {c : Contents} {key raw : String} {value : α}
    {parse : String → Except Integer.Fault α} (h : c.read key = .ok (some raw))
    (hp : parse raw = .ok value) : (getParsed parse key).run c = .ok (some value) c := by
  rw [getParsed, run_bind_ok (run_get h)]
  simp only [hp]
  rfl

theorem run_getParsed_text {c : Contents} {k : Key} {raw : String} {value : α}
    {parse : String → Except Integer.Fault α} (h : c.text? k = some raw)
    (hp : parse raw = .ok value) : (getParsed parse k.text).run c = .ok (some value) c := by
  rw [getParsed, run_bind_ok (run_get_text h)]
  simp only [hp]
  rfl

/-- A number that counts as zero until it is written. -/
theorem run_count {c : Contents} {k : Key} {n : Nat} (h : c.count? k = some n) :
    (do return (← getParsed Integer.unsigned64 k.text).getD 0 : Script Nat).run c = .ok n c := by
  unfold Contents.count? at h
  split at h
  · next hr =>
    cases h
    rw [run_bind_ok (run_getParsed_absent hr)]
    rfl
  · next raw hr =>
    cases hp : Integer.unsigned64 raw with
    | error fault => rw [hp] at h; cases h
    | ok value =>
      rw [hp] at h
      cases h
      rw [run_bind_ok (run_getParsed_ok hr hp)]
      rfl
  · cases h

theorem run_successor {n : Nat} (c : Contents) (h : n + 1 < Word.size64) :
    (successor n).run c = .ok (n + 1) c := by
  simp only [successor, h, if_true]
  rfl

end Script

end FlatStore
