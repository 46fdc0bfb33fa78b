import FlatStore.Checksum
import FlatStore.Proofs.Record
import Mathlib.Data.Nat.Bitwise
import Mathlib.Data.Nat.Digits.Lemmas

/-! # What a checksum detects

    The register of the checksum is moved by maps that lose nothing, so two
    strings that leave different registers somewhere leave different registers
    after any bytes that they go on with.

    * **Shifts** are linear and lose nothing (`shift_xor`, `shifts_inj`), and so
      no byte that is taken in loses anything of the register (`take_inj`).
    * **Few bytes**: taking in up to four bytes is adding their number to the
      register and shifting (`take_of_short`), so different ones leave different
      registers (`eq_of_take_eq`).
    * **The seal**: a string with its own checksum behind it leaves the same
      register whatever the string is, and with other four bytes behind it
      another one (`take_eq_sealed_iff`). Fewer than four bytes never lead from
      the seal back to it (`take_sealed_ne`).
-/

namespace FlatStore.Checksum

variable {r s : UInt32}

/-! ### Shifts -/

theorem and_one_eq_one_iff (r : UInt32) : r &&& 1 = 1 ↔ r.toNat % 2 = 1 := by
  rw [← UInt32.toNat_inj, UInt32.toNat_and]
  exact Iff.of_eq (congrArg (· = 1) (Nat.and_one_is_mod r.toNat))

theorem shift_of_even (h : r.toNat % 2 = 0) : shift r = r >>> 1 := by
  have low : ¬ r &&& 1 = 1 := by
    rw [and_one_eq_one_iff]
    omega
  rw [shift, if_neg low]

theorem shift_of_odd (h : r.toNat % 2 = 1) : shift r = (r >>> 1) ^^^ polynomial := by
  rw [shift, if_pos ((and_one_eq_one_iff r).2 h)]

/-- A shift of a sum is the sum of the shifts. -/
theorem shift_xor (a b : UInt32) : shift (a ^^^ b) = shift a ^^^ shift b := by
  have low : (a ^^^ b).toNat % 2 = (a.toNat + b.toNat) % 2 := by
    rw [UInt32.toNat_xor, Nat.xor_mod_two_eq]
  rcases Nat.mod_two_eq_zero_or_one a.toNat with ha | ha <;>
    rcases Nat.mod_two_eq_zero_or_one b.toNat with hb | hb
  · rw [shift_of_even ha, shift_of_even hb, shift_of_even (by omega), UInt32.shiftRight_xor]
  · rw [shift_of_even ha, shift_of_odd hb, shift_of_odd (by omega), UInt32.shiftRight_xor,
      UInt32.xor_assoc]
  · rw [shift_of_odd ha, shift_of_even hb, shift_of_odd (by omega), UInt32.shiftRight_xor,
      UInt32.xor_assoc, UInt32.xor_assoc, UInt32.xor_comm polynomial]
  · -- The polynomial is subtracted on both sides, so it cancels.
    rw [shift_of_odd ha, shift_of_odd hb, shift_of_even (by omega), UInt32.shiftRight_xor,
      UInt32.xor_comm (b >>> 1), UInt32.xor_assoc, ← UInt32.xor_assoc polynomial,
      UInt32.xor_self, UInt32.zero_xor]

theorem toNat_shiftRight_one (r : UInt32) : (r >>> 1).toNat = r.toNat / 2 := by
  rw [UInt32.toNat_shiftRight, Nat.shiftRight_eq_div_pow]
  rfl

/-- Nothing but zero is shifted to zero: the polynomial has the highest bit, which a register that
was moved down has not. -/
theorem eq_zero_of_shift_eq_zero (h : shift r = 0) : r = 0 := by
  have half := toNat_shiftRight_one r
  rcases Nat.mod_two_eq_zero_or_one r.toNat with even | odd
  · rw [shift_of_even even] at h
    rw [h, UInt32.toNat_zero] at half
    rw [← UInt32.toNat_inj, UInt32.toNat_zero]
    omega
  · rw [shift_of_odd odd, UInt32.xor_eq_zero_iff] at h
    have high : polynomial.toNat = 0xEDB88320 := rfl
    have bounded := r.toNat_lt
    rw [h] at half
    omega

theorem shifts_xor (n : Nat) (a b : UInt32) : shifts n (a ^^^ b) = shifts n a ^^^ shifts n b := by
  induction n generalizing a b with
  | zero => rfl
  | succ n ih => rw [shifts, shifts, shifts, shift_xor, ih]

theorem eq_zero_of_shifts_eq_zero {n : Nat} (h : shifts n r = 0) : r = 0 := by
  induction n generalizing r with
  | zero => exact h
  | succ n ih => exact eq_zero_of_shift_eq_zero (ih h)

/-- Registers that differ still do after shifts. -/
theorem shifts_inj {n : Nat} : shifts n r = shifts n s ↔ r = s := by
  refine ⟨fun h => ?_, fun h => by rw [h]⟩
  rw [← UInt32.xor_eq_zero_iff, ← shifts_xor] at h
  exact UInt32.xor_eq_zero_iff.1 (eq_zero_of_shifts_eq_zero h)

theorem shifts_shifts (m n : Nat) (r : UInt32) : shifts m (shifts n r) = shifts (n + m) r := by
  induction n generalizing r with
  | zero => rw [shifts, Nat.zero_add]
  | succ n ih => rw [Nat.succ_add, shifts, shifts, ih]

/-- Zeros at the low end are shifted out. -/
theorem shifts_mul_two_pow {n m : Nat} (h : m * 2 ^ n < 0x100000000) :
    shifts n (UInt32.ofNat (m * 2 ^ n)) = UInt32.ofNat m := by
  induction n with
  | zero => rw [Nat.pow_zero, Nat.mul_one, shifts]
  | succ n ih =>
    have double : m * 2 ^ (n + 1) = 2 * (m * 2 ^ n) := by
      rw [Nat.pow_succ, ← Nat.mul_assoc, Nat.mul_comm]
    have value : (UInt32.ofNat (2 * (m * 2 ^ n))).toNat = 2 * (m * 2 ^ n) :=
      UInt32.toNat_ofNat_of_lt' (by rwa [← double])
    have halved : UInt32.ofNat (2 * (m * 2 ^ n)) >>> 1 = UInt32.ofNat (m * 2 ^ n) := by
      rw [← UInt32.toNat_inj, toNat_shiftRight_one, value, Nat.mul_div_cancel_left _ Nat.two_pos,
        UInt32.toNat_ofNat_of_lt' (by rw [UInt32.size]; omega)]
    rw [double, shifts, shift_of_even (by omega), halved, ih (by omega)]

/-! ### Bytes -/

theorem step_inj {byte : UInt8} : step r byte = step s byte ↔ r = s := by
  rw [step, step, shifts_inj, UInt32.xor_left_inj]

/-- Registers that differ still do after the same bytes. -/
theorem take_inj {b : Bytes} : take b r = take b s ↔ r = s := by
  rw [take_eq_foldl, take_eq_foldl]
  induction b.data.toList generalizing r s with
  | nil => rfl
  | cons byte bytes ih => rw [List.foldl_cons, List.foldl_cons, ih, step_inj]

/-- The number that bytes are, lowest byte first. -/
def number (b : Bytes) : Nat := Nat.ofDigits 256 (b.data.toList.map UInt8.toNat)

theorem digit_lt (bytes : List UInt8) : ∀ n ∈ bytes.map UInt8.toNat, n < 256 := by
  intro n hn
  obtain ⟨byte, -, rfl⟩ := List.mem_map.1 hn
  exact byte.toNat_lt

theorem number_lt (b : Bytes) : number b < 256 ^ b.size := by
  have bounded := Nat.ofDigits_lt_base_pow_length (by decide) (digit_lt b.data.toList)
  rwa [List.length_map, Array.length_toList, ByteArray.size_data] at bounded

theorem number_lt_of_short {b : Bytes} (short : b.size ≤ 4) : number b < 0x100000000 :=
  (number_lt b).trans_le (Nat.pow_le_pow_right (by decide) short)

/-- Bytes of one length are told apart by their numbers. -/
theorem eq_of_number_eq {b b' : Bytes} (size : b.size = b'.size) (h : number b = number b') :
    b = b' := by
  have lengths :
      (b.data.toList.map UInt8.toNat).length = (b'.data.toList.map UInt8.toNat).length := by
    simpa using size
  have same := Nat.ofDigits_inj_of_len_eq (by decide) lengths (digit_lt _) (digit_lt _) h
  have bytes := (List.map_injective_iff.2 fun _ _ => UInt8.toNat_inj.1) same
  exact ByteArray.ext (Array.toList_inj.1 bytes)

/-- The lowest byte of a number is added to the rest of it. -/
theorem ofNat_add_mul (byte : UInt8) (n : Nat) :
    UInt32.ofNat (byte.toNat + 256 * n) = byte.toUInt32 ^^^ UInt32.ofNat (n * 2 ^ 8) := by
  rw [← UInt32.ofNat_uInt8ToNat, ← UInt32.ofNat_xor]
  congr 1
  have low := byte.toNat_lt
  refine Nat.eq_of_testBit_eq fun i => ?_
  rw [Nat.testBit_xor, Nat.testBit_mul_two_pow, Nat.add_comm, show (256 : Nat) = 2 ^ 8 from rfl,
    Nat.testBit_two_pow_mul_add n low]
  by_cases within : i < 8
  · simp [within, Nat.not_le.2 within]
  · have past : byte.toNat.testBit i = false :=
      Nat.testBit_lt_two_pow (low.trans_le (Nat.pow_le_pow_right (by decide) (by omega)))
    simp [within, past, Nat.not_lt.1 within]

/-- Taking in the lowest byte of a number brings the rest of it down to the low end. -/
theorem step_xor_rest {byte : UInt8} {n : Nat} (h : byte.toNat + 256 * n < 0x100000000)
    (r : UInt32) :
    step r byte ^^^ UInt32.ofNat n = shifts 8 (r ^^^ UInt32.ofNat (byte.toNat + 256 * n)) := by
  rw [step, ofNat_add_mul, ← UInt32.xor_assoc, shifts_xor 8 (r ^^^ _),
    shifts_mul_two_pow (show n * 2 ^ 8 < 0x100000000 by omega)]

/-- Up to four bytes are taken in by adding their number to the register and shifting. -/
theorem take_of_short {b : Bytes} (short : b.size ≤ 4) (r : UInt32) :
    take b r = shifts (8 * b.size) (r ^^^ UInt32.ofNat (number b)) := by
  have fits := number_lt_of_short short
  have size : b.size = b.data.toList.length := by simp
  rw [size, take_eq_foldl]
  unfold number at *
  generalize b.data.toList = bytes at fits
  -- Byte by byte: what is left of the number is the part above the byte that was taken in.
  induction bytes generalizing r with
  | nil => exact UInt32.xor_zero.symm
  | cons byte bytes ih =>
    rw [List.map_cons, Nat.ofDigits_cons] at fits ⊢
    rw [List.foldl_cons, ih _ (by omega), step_xor_rest fits, shifts_shifts, List.length_cons,
      Nat.mul_succ, Nat.add_comm 8]

/-- Up to four bytes that leave the same register are the same. -/
theorem eq_of_take_eq {b b' : Bytes} (size : b.size = b'.size) (short : b.size ≤ 4)
    (h : take b r = take b' r) : b = b' := by
  have short' : b'.size ≤ 4 := size ▸ short
  rw [take_of_short short, take_of_short short', size, shifts_inj, UInt32.xor_right_inj,
    ← UInt32.toNat_inj, UInt32.toNat_ofNat_of_lt' (number_lt_of_short short),
    UInt32.toNat_ofNat_of_lt' (number_lt_of_short short')] at h
  exact eq_of_number_eq size h

/-! ### The seal -/

/-- The register behind a string and its checksum. -/
def sealed : UInt32 := shifts 32 0xFFFFFFFF

theorem xor_eq_ones_iff : r ^^^ s = 0xFFFFFFFF ↔ s = ~~~ r := by
  rw [← UInt32.xor_right_inj r (a := s), UInt32.xor_not, UInt32.xor_self]
  rfl

/-- Four bytes bring the register to the seal just if they are its complement. -/
theorem take_eq_sealed_iff {b : Bytes} (size : b.size = 4) :
    take b r = sealed ↔ UInt32.ofNat (number b) = ~~~ r := by
  rw [take_of_short size.le, size, sealed, shifts_inj, xor_eq_ones_iff]

/-- Where the number of the bytes that would lead from the seal back to it is too large for so few
bytes, none do. The register `x` is the one from which shifts alone lead to the seal. -/
theorem take_sealed_ne_of_large {b : Bytes} (short : b.size ≤ 4) {x : UInt32}
    (before : shifts (8 * b.size) x = sealed) (large : 256 ^ b.size ≤ (sealed ^^^ x).toNat) :
    take b sealed ≠ sealed := by
  intro h
  rw [take_of_short short] at h
  have same : sealed ^^^ UInt32.ofNat (number b) = x := shifts_inj.1 (h.trans before.symm)
  rw [← same, ← UInt32.xor_assoc, UInt32.xor_self, UInt32.zero_xor,
    UInt32.toNat_ofNat_of_lt' (number_lt_of_short short)] at large
  exact absurd (number_lt b) (Nat.not_lt.2 large)

/-- Fewer than four bytes do not lead from the seal back to it. -/
theorem take_sealed_ne {b : Bytes} (some_bytes : 0 < b.size) (few : b.size < 4) :
    take b sealed ≠ sealed := by
  have sizes : b.size = 1 ∨ b.size = 2 ∨ b.size = 3 := by omega
  rcases sizes with one | two | three
  · have before : shifts (8 * b.size) 0xBE26ED = sealed := by
      rw [one]
      decide +kernel
    exact take_sealed_ne_of_large few.le before (by rw [one]; decide +kernel)
  · have before : shifts (8 * b.size) 0xBE26ED00 = sealed := by
      rw [two]
      decide +kernel
    exact take_sealed_ne_of_large few.le before (by rw [two]; decide +kernel)
  · have before : shifts (8 * b.size) 0x2DFD1072 = sealed := by
      rw [three]
      decide +kernel
    exact take_sealed_ne_of_large few.le before (by rw [three]; decide +kernel)

end FlatStore.Checksum
