import FlatStore.Link
import FlatStore.Text.Integer

/-! # Numerals

    Numbers are stored as `toString` writes them: decimal digits, behind a
    minus sign if the number is negative.

    * **Round trip**: the readers of `Integer` and `Link` give back what was
      written, as long as it is in their range.
    * **Spelling**: what is read as an integer spells it, with an optional sign
      and at least one digit (`Spells`), and the integer is in range.
-/

namespace FlatStore.Integer

/-! ### Digits -/

theorem digit?_of_isDigit {c : Char} (h : c.isDigit) :
    digit? c = some (c.toNat - '0'.toNat) := by
  rw [Char.isDigit_iff_toNat] at h
  have low : '0' ≤ c := h.1
  have high : c ≤ '9' := h.2
  simp [digit?, low, high]

/-- Reading digits goes as far as their value does not exceed the limit. -/
theorem digitsFrom_of_isDigit (limit : Nat) (beyond : Fault) {cs : List Char}
    (digits : ∀ c ∈ cs, c.isDigit) (n : Nat) (h : Nat.ofDigitChars 10 cs n ≤ limit) :
    digitsFrom limit beyond n cs = .ok (Nat.ofDigitChars 10 cs n) := by
  induction cs generalizing n with
  | nil => simp [digitsFrom]
  | cons c rest ih =>
    rw [Nat.ofDigitChars_cons] at h ⊢
    have rest_digits : ∀ c ∈ rest, c.isDigit := fun d hd => digits d (List.mem_cons_of_mem c hd)
    have grows : 10 * n + (c.toNat - '0'.toNat) ≤ limit := by
      rw [Nat.ofDigitChars_eq_ofDigitChars_zero] at h
      have : 0 < 10 ^ rest.length := Nat.pow_pos (by decide)
      have := Nat.le_mul_of_pos_left (10 * n + (c.toNat - '0'.toNat)) this
      omega
    rw [digitsFrom, digit?_of_isDigit (digits c List.mem_cons_self)]
    simp only [grows, if_true]
    exact ih rest_digits _ h

theorem isDigit_of_mem_numeral {n : Nat} {c : Char} (h : c ∈ Nat.toDigits 10 n) : c.isDigit :=
  Nat.isDigit_of_mem_toDigits (by decide) (by decide) h

/-- A run of digits is read as its value. -/
theorem digits_of_isDigit {limit : Nat} (beyond : Fault) {cs : List Char} (some_digits : cs ≠ [])
    (all : ∀ c ∈ cs, c.isDigit) (within : Nat.ofDigitChars 10 cs 0 ≤ limit) :
    digits limit beyond cs = .ok (Nat.ofDigitChars 10 cs 0) := by
  cases cs with
  | nil => exact absurd rfl some_digits
  | cons c rest => exact digitsFrom_of_isDigit limit beyond all 0 within

/-- The digits of a number are read back. -/
theorem digits_toDigits {limit n : Nat} (beyond : Fault) (h : n ≤ limit) :
    digits limit beyond (Nat.toDigits 10 n) = .ok n := by
  have value : Nat.ofDigitChars 10 (Nat.toDigits 10 n) 0 = n := Nat.ofDigitChars_ten_toDigits
  have within : Nat.ofDigitChars 10 (Nat.toDigits 10 n) 0 ≤ limit := by rwa [value]
  have read := digits_of_isDigit beyond Nat.toDigits_ne_nil (fun _ => isDigit_of_mem_numeral) within
  rwa [value] at read

/-- A numeral starts with a digit, not with a sign. -/
theorem head_numeral (n : Nat) :
    ∃ c rest, Nat.toDigits 10 n = c :: rest ∧ c ≠ '+' ∧ c ≠ '-' := by
  cases hd : Nat.toDigits 10 n with
  | nil => exact absurd hd Nat.toDigits_ne_nil
  | cons c rest =>
    have digit : c.isDigit := isDigit_of_mem_numeral (n := n) (by rw [hd]; exact List.mem_cons_self)
    refine ⟨c, rest, rfl, ?_, ?_⟩ <;> rintro rfl <;> exact absurd digit (by decide)

/-! ### Round trips -/

/-- A natural number in range is read back from its numeral. -/
theorem natBelow_toString {bound n : Nat} (h : n < bound) :
    natBelow bound (toString n) = .ok n := by
  have read := digits_toDigits (n := n) .tooLarge (show n ≤ bound - 1 by omega)
  obtain ⟨c, rest, hd, hplus, -⟩ := head_numeral n
  rw [natBelow, Nat.toString_eq_repr, Nat.toList_repr]
  rw [hd] at read ⊢
  split
  · next h => cases h
  · next h => cases h; exact absurd rfl hplus
  · exact read

theorem unsigned64_toString {n : Nat} (h : n < Word.size64) : unsigned64 (toString n) = .ok n :=
  natBelow_toString h

/-! ### Spelled numbers -/

/-- The text is an optional sign and at least one decimal digit. -/
inductive Spells : String → Int → Prop where
  | plain {s : String} {digits : List Char} (text : s.toList = digits) (some_digits : digits ≠ [])
      (all : ∀ c ∈ digits, c.isDigit) : Spells s (Nat.ofDigitChars 10 digits 0)
  | plus {s : String} {digits : List Char} (text : s.toList = '+' :: digits)
      (some_digits : digits ≠ []) (all : ∀ c ∈ digits, c.isDigit) :
      Spells s (Nat.ofDigitChars 10 digits 0)
  | minus {s : String} {digits : List Char} (text : s.toList = '-' :: digits)
      (some_digits : digits ≠ []) (all : ∀ c ∈ digits, c.isDigit) :
      Spells s (-(Nat.ofDigitChars 10 digits 0 : Int))

/-- Nothing but a sign and digits stands in a spelled number. -/
theorem Spells.sign_or_digit {s : String} {n : Int} (h : Spells s n) :
    s ≠ "" ∧ ∀ c ∈ s.toList, c = '+' ∨ c = '-' ∨ c.isDigit := by
  have filled : ∀ {c : Char} {rest : List Char}, s.toList = c :: rest → s ≠ "" := by
    rintro c rest text rfl
    cases text
  cases h with
  | @plain digits text some_digits all =>
    obtain ⟨c, rest, rfl⟩ := List.exists_cons_of_ne_nil some_digits
    refine ⟨filled text, fun c mem => Or.inr (Or.inr (all c ?_))⟩
    rwa [text] at mem
  | plus text some_digits all =>
    refine ⟨filled text, fun c mem => ?_⟩
    rw [text] at mem
    exact (List.mem_cons.1 mem).imp_right fun digit => Or.inr (all c digit)
  | minus text some_digits all =>
    refine ⟨filled text, fun c mem => ?_⟩
    rw [text] at mem
    exact Or.inr ((List.mem_cons.1 mem).imp_right (all c))

theorem Spells.comma_not_mem {s : String} {n : Int} (h : Spells s n) : ',' ∉ s.toList := by
  intro mem
  rcases h.sign_or_digit.2 ',' mem with plus | minus | digit
  · exact absurd plus (by decide)
  · exact absurd minus (by decide)
  · exact absurd digit (by decide)

/-- A numeral spells its number. -/
theorem spells_toString (n : Int) : Spells (toString n) n := by
  have value : ∀ k : Nat, Nat.ofDigitChars 10 (Nat.toDigits 10 k) 0 = k :=
    fun k => Nat.ofDigitChars_ten_toDigits
  rw [Int.toString_eq_repr]
  -- A natural number is written without a sign, a negative one behind a minus.
  cases n with
  | ofNat k =>
    have spells := Spells.plain (s := (Int.ofNat k).repr) (Nat.toList_repr) Nat.toDigits_ne_nil
      fun _ => isDigit_of_mem_numeral
    rwa [value] at spells
  | negSucc k =>
    have text : (Int.negSucc k).repr.toList = '-' :: Nat.toDigits 10 (k + 1) := by
      rw [Int.repr, String.toList_append, Nat.toList_repr]
      rfl
    have spells := Spells.minus text Nat.toDigits_ne_nil fun _ => isDigit_of_mem_numeral
    rwa [value] at spells

/-- A spelled integer in range is read. -/
theorem Spells.intWithin {s : String} {n : Int} (h : Spells s n) {bound : Nat}
    (low : -(bound : Int) ≤ n) (high : n < bound) : intWithin bound s = .ok n := by
  cases h with
  | @plain cs text some_digits all =>
    have read : digits (bound - 1) .tooLarge cs = .ok _ :=
      digits_of_isDigit _ some_digits all (by omega)
    rw [Integer.intWithin, text]
    cases cs with
    | nil => exact absurd rfl some_digits
    | cons c rest =>
      have digit := all c List.mem_cons_self
      split
      · next none_left => cases none_left
      · next sign => cases sign; exact absurd digit (by decide)
      · next sign => cases sign; exact absurd digit (by decide)
      · rw [read]; rfl
  | @plus cs text some_digits all =>
    have read : digits (bound - 1) .tooLarge cs = .ok _ :=
      digits_of_isDigit _ some_digits all (by omega)
    rw [Integer.intWithin, text]
    simp only [read]
    rfl
  | @minus cs text some_digits all =>
    have read : digits bound .tooSmall cs = .ok _ :=
      digits_of_isDigit _ some_digits all (by omega)
    rw [Integer.intWithin, text]
    simp only [read]
    rfl

theorem digit?_eq_some {c : Char} {d : Nat} (h : digit? c = some d) :
    c.isDigit ∧ d = c.toNat - '0'.toNat := by
  rw [digit?, Option.ite_none_right_eq_some] at h
  obtain ⟨⟨low, high⟩, h⟩ := h
  cases h
  exact ⟨Char.isDigit_iff_toNat.2 ⟨low, high⟩, rfl⟩

/-- What was read as a number behind another one are digits, and they stay below the limit. -/
theorem digitsFrom_sound {limit n m : Nat} {beyond : Fault} {cs : List Char} (le : n ≤ limit)
    (h : digitsFrom limit beyond n cs = .ok m) :
    (∀ c ∈ cs, c.isDigit) ∧ m = Nat.ofDigitChars 10 cs n ∧ m ≤ limit := by
  induction cs generalizing n with
  | nil =>
    cases h
    exact ⟨List.forall_mem_nil _, by simp, le⟩
  | cons c rest ih =>
    rw [digitsFrom] at h
    split at h
    · cases h
    · next d digit =>
      obtain ⟨here, rfl⟩ := digit?_eq_some digit
      split at h
      · next within =>
        obtain ⟨behind, value, bound⟩ := ih within h
        exact ⟨List.forall_mem_cons.2 ⟨here, behind⟩, by rw [Nat.ofDigitChars_cons, value], bound⟩
      · cases h

theorem digits_sound {limit m : Nat} {beyond : Fault} {cs : List Char}
    (h : digits limit beyond cs = .ok m) :
    cs ≠ [] ∧ (∀ c ∈ cs, c.isDigit) ∧ m = Nat.ofDigitChars 10 cs 0 ∧ m ≤ limit := by
  cases cs with
  | nil => cases h
  | cons c rest => exact ⟨List.cons_ne_nil c rest, digitsFrom_sound (Nat.zero_le limit) h⟩

/-- What was read as a number spells it, and the number is in range. -/
theorem intWithin_sound {bound : Nat} (positive : 0 < bound) {s : String} {n : Int}
    (h : intWithin bound s = .ok n) : Spells s n ∧ -(bound : Int) ≤ n ∧ n < bound := by
  unfold intWithin at h
  split at h
  · cases h
  · next rest text =>
    cases read : digits bound .tooSmall rest with
    | error fault =>
      rw [read] at h
      cases h
    | ok m =>
      rw [read] at h
      cases h
      obtain ⟨nonempty, all, rfl, within⟩ := digits_sound read
      refine ⟨.minus text nonempty all, ?_⟩
      show -(bound : Int) ≤ -(Nat.ofDigitChars 10 rest 0 : Int) ∧
        -(Nat.ofDigitChars 10 rest 0 : Int) < bound
      omega
  · next rest text =>
    cases read : digits (bound - 1) .tooLarge rest with
    | error fault =>
      rw [read] at h
      cases h
    | ok m =>
      rw [read] at h
      cases h
      obtain ⟨nonempty, all, rfl, within⟩ := digits_sound read
      refine ⟨.plus text nonempty all, ?_⟩
      simp only [Int.ofNat_eq_natCast]
      omega
  · cases read : digits (bound - 1) .tooLarge s.toList with
    | error fault =>
      rw [read] at h
      cases h
    | ok m =>
      rw [read] at h
      cases h
      obtain ⟨nonempty, all, rfl, within⟩ := digits_sound read
      refine ⟨.plain rfl nonempty all, ?_⟩
      simp only [Int.ofNat_eq_natCast]
      omega

theorem natBelow_lt {bound n : Nat} (positive : 0 < bound) {s : String}
    (h : natBelow bound s = .ok n) : n < bound := by
  have within : ∀ cs, digits (bound - 1) .tooLarge cs = .ok n → n < bound := by
    intro cs read
    have := (digits_sound read).2.2.2
    omega
  unfold natBelow at h
  split at h
  · cases h
  · exact within _ h
  · exact within _ h

theorem unsigned64_lt {n : Nat} {s : String} (h : unsigned64 s = .ok n) : n < Word.size64 :=
  natBelow_lt (by decide) h

/-- An integer in range is read back from its numeral. -/
theorem intWithin_toString {bound : Nat} {n : Int} (low : -(bound : Int) ≤ n)
    (high : n < bound) : intWithin bound (toString n) = .ok n :=
  (spells_toString n).intWithin low high

theorem signed32_toString {n : Int} (low : -(Word.half32 : Int) ≤ n) (high : n < Word.half32) :
    signed32 (toString n) = .ok n :=
  intWithin_toString low high

end FlatStore.Integer

namespace FlatStore.Link

/-- Whether a link leads nowhere or to a node whose id is a word of 64 bits. -/
def Fits (link : Link) : Prop := ∀ id ∈ link, id < Word.size64

@[simp]
theorem fits_none : Fits none := by simp [Fits]

@[simp]
theorem fits_some (id : NodeId) : Fits (some id) ↔ id < Word.size64 := by simp [Fits]

/-- A link is read back from its text. -/
theorem parse?_text {link : Link} (h : link.Fits) : parse? link.text = some link := by
  cases link with
  | none => rfl
  | some id =>
    have sign : toString id ≠ "N" := by
      intro he
      have hN : 'N' ∈ (toString id).toList := by rw [he]; decide
      rw [Nat.toString_eq_repr, Nat.toList_repr] at hN
      exact absurd (Integer.isDigit_of_mem_numeral hN) (by decide)
    have read := Integer.unsigned64_toString ((fits_some id).1 h)
    simp only [text, parse?, sign, if_false, read]

/-- A link that was read leads to a node whose id is a word of 64 bits. -/
theorem fits_of_parse? {raw : String} {link : Link} (h : parse? raw = some link) : link.Fits := by
  unfold parse? at h
  split at h
  · cases h
    exact fits_none
  · split at h
    · next id read =>
      cases h
      exact (fits_some id).2 (Integer.unsigned64_lt read)
    · cases h

end FlatStore.Link
