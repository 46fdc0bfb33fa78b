import FlatStore.Proofs.Checksum
import FlatStore.Proofs.Record.Split

/-! # Damaged records

    A record whose lengths can be believed is accepted just if the bytes behind
    its header bring the register of the checksum to the seal
    (`read_of_lengths`). What that means for damage:

    * **Behind the header**, damage to at most four bytes in a row is always
      noticed, also where the value meets the checksum (`read_of_short_damage`).
    * **In the header** it is not always noticed, because the checksum does not
      cover the lengths: the bytes that are still there may make up another
      record (`changed_lengths_are_refused_unless`).
-/

namespace FlatStore

/-! ### Changed bytes -/

/-- Bytes were changed at some of the `n` positions from `i` on, and nowhere else. -/
structure Bytes.ChangedWithin (i n : Nat) (b d : Bytes) : Prop where
  size : d.size = b.size
  same : ∀ j, j < i ∨ i + n ≤ j → d[j]? = b[j]?
  changed : d ≠ b

namespace Bytes.ChangedWithin

variable {b d : Bytes} {i n : Nat}

/-- A word that lies clear of the change is read as before. -/
theorem wordAt_eq (h : ChangedWithin i n b d) {j : Nat} (clear : j + 4 ≤ i ∨ i + n ≤ j) :
    wordAt d j = wordAt b j := by
  have byte : ∀ k < 4, byteAt d (j + k) = byteAt b (j + k) := by
    intro k hk
    rw [byteAt, byteAt, h.same (j + k) (by omega)]
  have first := byte 0 (by omega)
  rw [Nat.add_zero] at first
  rw [wordAt, wordAt, first, byte 1 (by omega), byte 2 (by omega), byte 3 (by omega)]

/-- A slice that lies clear of the change is as before. -/
theorem extract_eq (h : ChangedWithin i n b d) {j k : Nat} (clear : k ≤ i ∨ i + n ≤ j) :
    d.extract j k = b.extract j k := by
  refine ByteArray.ext_getElem ?_ ?_
  · rw [ByteArray.size_extract, ByteArray.size_extract, h.size]
  · intro l hl hl'
    rw [ByteArray.getElem_extract, ByteArray.getElem_extract]
    rw [ByteArray.size_extract] at hl hl'
    have same := h.same (j + l) (by omega)
    rwa [getElem?_pos d (j + l) (by omega), getElem?_pos b (j + l) (by omega),
      Option.some.injEq] at same

theorem start_lt (h : ChangedWithin i n b d) : i < b.size := by
  by_contra past
  have same := h.extract_eq (j := 0) (k := b.size) (Or.inl (by omega))
  rw [ByteArray.extract_zero_size, ← h.size, ByteArray.extract_zero_size] at same
  exact h.changed same

/-- Bytes that were changed at no more than four positions in a row leave another register. -/
theorem take_ne (h : ChangedWithin i n b d) (short : n ≤ 4) {start : Nat} (behind : start ≤ i)
    (r : UInt32) :
    Checksum.take (d.extract start d.size) r ≠ Checksum.take (b.extract start b.size) r := by
  have within := h.start_lt
  set stop := min (i + n) b.size with hstop
  -- In front of the window and behind it the bytes are the same.
  have split : ∀ (c : Bytes) (from_ : Nat), from_ ≤ i → c.size = b.size →
      c.extract from_ c.size = c.extract from_ i ++ c.extract i stop ++ c.extract stop c.size := by
    intro c from_ hfrom hc
    rw [← ByteArray.extract_eq_extract_append_extract i hfrom (by omega),
      ← ByteArray.extract_eq_extract_append_extract stop (by omega) (by omega)]
  have front : ∀ from_, d.extract from_ i = b.extract from_ i :=
    fun from_ => h.extract_eq (Or.inl (Nat.le_refl i))
  have back : d.extract stop d.size = b.extract stop b.size := by
    rw [h.size]
    rcases Nat.le_total (i + n) b.size with inside | beyond
    · exact h.extract_eq (Or.inr (by omega))
    · rw [hstop, Nat.min_eq_right beyond, ByteArray.extract_same, ByteArray.extract_same]
  intro same
  rw [split d start behind h.size, split b start behind rfl, Checksum.take_append,
    Checksum.take_append, Checksum.take_append, Checksum.take_append, front, back,
    Checksum.take_inj] at same
  have size : (d.extract i stop).size = (b.extract i stop).size := by
    rw [ByteArray.size_extract, ByteArray.size_extract, h.size]
  have few : (d.extract i stop).size ≤ 4 := by
    rw [ByteArray.size_extract]
    omega
  have window := Checksum.eq_of_take_eq size few same
  apply h.changed
  rw [← ByteArray.extract_zero_size (b := d), ← ByteArray.extract_zero_size (b := b),
    split d 0 (Nat.zero_le i) h.size, split b 0 (Nat.zero_le i) rfl, front, window, back]

end Bytes.ChangedWithin

/-- One piece of the bytes was put in the place of another. -/
theorem Bytes.changedWithin_replace (before after : Bytes) {x y : Bytes} (size : y.size = x.size)
    (other : y ≠ x) :
    ChangedWithin before.size x.size (before ++ x ++ after) (before ++ y ++ after) := by
  have sizes : (before ++ y ++ after).size = (before ++ x ++ after).size := by
    simp only [ByteArray.size_append, size]
  refine ⟨sizes, fun j hj => ?_, ?_⟩
  · by_cases inside : j < (before ++ x ++ after).size
    · rw [getElem?_pos _ j (sizes ▸ inside), getElem?_pos _ j inside, Option.some.injEq]
      rcases hj with front | back
      · rw [ByteArray.getElem_append_left (by rw [ByteArray.size_append]; omega),
          ByteArray.getElem_append_left front,
          ByteArray.getElem_append_left (by rw [ByteArray.size_append]; omega),
          ByteArray.getElem_append_left front]
      · rw [ByteArray.getElem_append_right (by rw [ByteArray.size_append]; omega),
          ByteArray.getElem_append_right (by rw [ByteArray.size_append]; omega)]
        simp only [ByteArray.size_append, size]
    · rw [getElem?_neg _ j (sizes ▸ inside), getElem?_neg _ j inside]
  · rw [ne_eq, ByteArray.append_left_inj, ByteArray.append_right_inj]
    exact other

/-- Four bytes are the word that is read where they stand. -/
theorem Checksum.number_extract {b : Bytes} {i : Nat} (h : i + 4 ≤ b.size) :
    number (b.extract i (i + 4)) = Bytes.wordAt b i := by
  rw [number, ByteArray.extract_add_four h, Bytes.wordAt_of_lt h, List.data_toByteArray]
  simp only [List.map_cons, List.map_nil, Nat.ofDigits_cons, Nat.ofDigits_nil]
  omega

namespace Record

variable {b : Bytes} {start keyLength valueLength : Nat}

/-! ### Reading where the lengths are known -/

/-- The sum on file is that of the parts just if the three together bring the register to the seal.
-/
theorem sum_eq_checksum_iff {i j k : Nat} (hi : i ≤ j) (hj : j ≤ k) (whole : k + 4 ≤ b.size) :
    UInt32.ofNat (Bytes.wordAt b k) = checksum ⟨b.extract i j, b.extract j k⟩ ↔
      Checksum.take (b.extract i (k + 4)) 0xFFFFFFFF = Checksum.sealed := by
  have size : (b.extract k (k + 4)).size = 4 := by
    rw [ByteArray.size_extract]
    omega
  have parts : b.extract i (k + 4) = b.extract i j ++ b.extract j k ++ b.extract k (k + 4) := by
    rw [← ByteArray.extract_eq_extract_append_extract j hi hj,
      ← ByteArray.extract_eq_extract_append_extract k (by omega) (by omega)]
  rw [parts, Checksum.take_append, Checksum.take_append, Checksum.take_eq_sealed_iff size,
    Checksum.number_extract whole]
  rfl

/-- Where lengths within the limit stand, and as many bytes as they say behind them, a record is
read just if those bytes bring the register to the seal. Otherwise the checksums differ. -/
theorem read_of_lengths (key : Bytes.wordAt b start = keyLength)
    (value : Bytes.wordAt b (start + 4) = valueLength) (key_fits : keyLength ≤ maxLength)
    (value_fits : valueLength ≤ maxLength)
    (whole : start + 8 + keyLength + valueLength + 4 ≤ b.size) :
    (Checksum.take (b.extract (start + 8) (start + 8 + keyLength + valueLength + 4)) 0xFFFFFFFF =
        Checksum.sealed ∧
      read b start = .ok (some ⟨b.extract (start + 8) (start + 8 + keyLength),
        b.extract (start + 8 + keyLength) (start + 8 + keyLength + valueLength)⟩)) ∨
    (Checksum.take (b.extract (start + 8) (start + 8 + keyLength + valueLength + 4)) 0xFFFFFFFF ≠
        Checksum.sealed ∧
      ∃ stored computed, stored ≠ computed ∧
        read b start = .error (.checksum stored computed)) := by
  have sums := sum_eq_checksum_iff (b := b) (i := start + 8) (Nat.le_add_right _ keyLength)
    (Nat.le_add_right _ valueLength) whole
  have long_key : ¬ keyLength > maxLength := Nat.not_lt.2 key_fits
  have long_value : ¬ valueLength > maxLength := Nat.not_lt.2 value_fits
  unfold read
  simp only [headerLength, trailerLength, key, value, long_key, long_value, if_false]
  rw [if_neg (by omega), if_neg (by omega), if_neg (by omega)]
  split
  · next same => exact Or.inl ⟨sums.1 same, rfl⟩
  · next differ => exact Or.inr ⟨fun sealed => differ (sums.2 sealed), _, _, differ, rfl⟩

/-- Where a length is beyond the limit, or not all of the bytes are there, nothing is read. -/
theorem read_of_excess (key : Bytes.wordAt b start = keyLength)
    (value : Bytes.wordAt b (start + 4) = valueLength) (more : start < b.size)
    (excess : maxLength < keyLength ∨ maxLength < valueLength ∨
      b.size < start + 8 + keyLength + valueLength + 4) :
    ∃ fault, read b start = .error fault := by
  unfold read
  simp only [headerLength, trailerLength, key, value]
  rw [if_neg (by omega)]
  by_cases short : b.size < start + 8
  · exact ⟨_, if_pos short⟩
  rw [if_neg short]
  by_cases long_key : keyLength > maxLength
  · exact ⟨_, if_pos long_key⟩
  rw [if_neg long_key]
  by_cases long_value : valueLength > maxLength
  · exact ⟨_, if_pos long_value⟩
  rw [if_neg long_value, if_pos (by omega)]
  exact ⟨_, rfl⟩

/-! ### Behind the header -/

/-- What stands behind the header of a written record. -/
def body (r : Record) : Bytes := r.key ++ r.value ++ Bytes.ofWord r.checksum.toNat

variable {r : Record}

theorem image_eq (r : Record) :
    r.image = Bytes.ofWord r.key.size ++ Bytes.ofWord r.value.size ++ r.body := by
  simp only [image, body, ByteArray.append_assoc]

theorem extract_image (r : Record) (i j : Nat) :
    r.image.extract (8 + i) (8 + j) = r.body.extract i j := by
  rw [image_eq]
  exact ByteArray.extract_append_size_add' rfl

theorem extract_image_behind (r : Record) : r.image.extract 8 r.image.size = r.body := by
  have slice := r.extract_image 0 r.body.size
  rw [ByteArray.extract_zero_size] at slice
  rw [← slice, image_eq, ByteArray.size_append]
  rfl

theorem standsAt_image (fits : r.Fits) : r.StandsAt r.image 0 := by
  refine standsAt_of_extract fits ?_
  rw [Nat.zero_add, ← size_image, ByteArray.extract_zero_size]

/-- A record ends with its own checksum. -/
theorem take_body (r : Record) : Checksum.take r.body 0xFFFFFFFF = Checksum.sealed := by
  have number : Checksum.number (Bytes.ofWord r.checksum.toNat) = r.checksum.toNat := by
    have read :=
      Checksum.number_extract (b := Bytes.ofWord r.checksum.toNat) (i := 0) (Nat.le_refl 4)
    rwa [Bytes.wordAt_ofWord _ r.checksum.toNat_lt] at read
  rw [body, Checksum.take_append, Checksum.take_append, Checksum.take_eq_sealed_iff rfl, number,
    UInt32.ofNat_toNat]
  rfl

/-- A slice of bytes with others behind them is theirs. -/
theorem extract_append_left (d rest : Bytes) {i j : Nat} (h : j ≤ d.size) :
    (d ++ rest).extract i j = d.extract i j := by
  have nothing : rest.extract (i - d.size) 0 = ByteArray.empty :=
    ByteArray.extract_eq_empty_iff.2 (by omega)
  rw [ByteArray.extract_append, Nat.sub_eq_zero_of_le h, nothing, ByteArray.append_empty]

/-- A slice of bytes that stand between others is theirs. -/
theorem extract_between (before d rest : Bytes) {i j : Nat} (h : j ≤ d.size) :
    (before ++ d ++ rest).extract (before.size + i) (before.size + j) = d.extract i j := by
  rw [ByteArray.append_assoc, ByteArray.extract_append_size_add, extract_append_left _ _ h]

theorem wordAt_between (before d rest : Bytes) {i : Nat} (h : i + 4 ≤ d.size) :
    Bytes.wordAt (before ++ d ++ rest) (before.size + i) = Bytes.wordAt d i := by
  have size : before.size + i + 4 ≤ (before ++ d ++ rest).size := by
    rw [ByteArray.size_append, ByteArray.size_append]
    omega
  rw [Bytes.wordAt_extract size, Nat.add_assoc, extract_between _ _ _ h, ← Bytes.wordAt_extract h]

/-- Where no more than four bytes in a row were changed behind the header, the checksums differ. -/
theorem read_of_short_damage (fits : r.Fits) {i n : Nat} {damaged : Bytes}
    (hit : Bytes.ChangedWithin i n r.image damaged) (short : n ≤ 4) (behind : 8 ≤ i)
    (before rest : Bytes) : ∃ stored computed, stored ≠ computed ∧
      read (before ++ damaged ++ rest) before.size = .error (.checksum stored computed) := by
  have stands := standsAt_image fits
  have size : damaged.size = 8 + r.key.size + r.value.size + 4 := by
    rw [hit.size, size_image, encodedLength_eq]
  -- The header is as it was, so as many bytes are taken as belong to the record.
  have key : Bytes.wordAt (before ++ damaged ++ rest) before.size = r.key.size := by
    have word := wordAt_between before damaged rest (i := 0) (by omega)
    rw [Nat.add_zero] at word
    rw [word, hit.wordAt_eq (Or.inl (by omega)), stands.keyLength]
  have value : Bytes.wordAt (before ++ damaged ++ rest) (before.size + 4) = r.value.size := by
    rw [wordAt_between before damaged rest (by omega), hit.wordAt_eq (Or.inl (by omega)),
      ← stands.valueLength]
  have whole : before.size + 8 + r.key.size + r.value.size + 4 ≤
      (before ++ damaged ++ rest).size := by
    rw [ByteArray.size_append, ByteArray.size_append]
    omega
  have taken : (before ++ damaged ++ rest).extract (before.size + 8)
      (before.size + 8 + r.key.size + r.value.size + 4) = damaged.extract 8 damaged.size := by
    have slice := extract_between before damaged rest (i := 8) (Nat.le_refl damaged.size)
    rw [← slice, size]
    congr 1
    omega
  rcases read_of_lengths key value fits.1 fits.2 whole with ⟨intact, -⟩ | ⟨-, refused⟩
  · rw [taken] at intact
    have other := hit.take_ne short behind 0xFFFFFFFF
    rw [intact, extract_image_behind, take_body] at other
    exact absurd rfl other
  · exact refused

/-! ### In the header -/

/-- What lengths cut off the front of a payload. -/
def cutOff (payload : Bytes) (keyLength valueLength : Nat) : Record :=
  ⟨payload.extract 0 keyLength, payload.extract keyLength (keyLength + valueLength)⟩

/-- Lengths within the limit between which a payload is divided as a whole, or from the front of
which they cut off a record whose checksum happens to be what comes next. -/
structure Believable (payload : Bytes) (keyLength valueLength : Nat) : Prop where
  key : keyLength ≤ maxLength
  value : valueLength ≤ maxLength
  sum : keyLength + valueLength = payload.size ∨
    (keyLength + valueLength + trailerLength ≤ payload.size ∧
      Bytes.wordAt payload (keyLength + valueLength) =
        (cutOff payload keyLength valueLength).checksum.toNat)

theorem believable_iff {payload : Bytes} (key_fits : keyLength ≤ maxLength)
    (value_fits : valueLength ≤ maxLength) :
    Believable payload keyLength valueLength ↔
      keyLength + valueLength = payload.size ∨
        (keyLength + valueLength + 4 ≤ payload.size ∧
          Checksum.take (payload.extract 0 (keyLength + valueLength + 4)) 0xFFFFFFFF =
            Checksum.sealed) := by
  have sums : keyLength + valueLength + 4 ≤ payload.size →
      (Bytes.wordAt payload (keyLength + valueLength) =
          (cutOff payload keyLength valueLength).checksum.toNat ↔
        Checksum.take (payload.extract 0 (keyLength + valueLength + 4)) 0xFFFFFFFF =
          Checksum.sealed) := by
    intro inside
    rw [← sum_eq_checksum_iff (Nat.zero_le keyLength) (Nat.le_add_right _ _) inside, cutOff,
      ← UInt32.toNat_inj, UInt32.toNat_ofNat_of_lt' (Bytes.wordAt_lt inside)]
  rw [← and_congr_right sums]
  exact ⟨Believable.sum, fun sum => ⟨key_fits, value_fits, sum⟩⟩

theorem size_body (r : Record) : r.body.size = (r.key ++ r.value).size + 4 := by
  rw [body, ByteArray.size_append, Bytes.size_ofWord]

theorem size_image_eq (r : Record) : r.image.size = 8 + ((r.key ++ r.value).size + 4) := by
  rw [image_eq, ByteArray.size_append, size_body]
  rfl

/-- A slice of the payload of a written record. -/
theorem extract_payload {i j : Nat} (h : j ≤ (r.key ++ r.value).size) :
    r.body.extract i j = (r.key ++ r.value).extract i j := by
  rw [body, extract_append_left _ _ h]

/-- Of the bytes behind the header of a written record, just all of them and those that end with
their own checksum inside the payload bring the register to the seal. -/
theorem take_front_eq_sealed_iff {n : Nat} (short : n ≤ (r.key ++ r.value).size) :
    Checksum.take (r.body.extract 0 (n + 4)) 0xFFFFFFFF = Checksum.sealed ↔
      n = (r.key ++ r.value).size ∨
        (n + 4 ≤ (r.key ++ r.value).size ∧
          Checksum.take ((r.key ++ r.value).extract 0 (n + 4)) 0xFFFFFFFF = Checksum.sealed) := by
  have size := r.size_body
  rcases Nat.lt_or_ge (r.key ++ r.value).size (n + 4) with past | inside
  · rw [or_iff_left fun h => absurd past (Nat.not_lt.2 h.1)]
    constructor
    · intro front
      by_contra other
      -- What is left of the checksum leads from the seal back to it, and is too short for that.
      have left : (r.body.extract (n + 4) r.body.size).size = (r.key ++ r.value).size - n := by
        rw [ByteArray.size_extract]
        omega
      have all : r.body = r.body.extract 0 (n + 4) ++ r.body.extract (n + 4) r.body.size := by
        rw [← ByteArray.extract_eq_extract_append_extract (n + 4) (by omega) (by omega),
          ByteArray.extract_zero_size]
      have sealed := r.take_body
      rw [all, Checksum.take_append, front] at sealed
      exact Checksum.take_sealed_ne (by omega) (by omega) sealed
    · rintro rfl
      rw [← size, ByteArray.extract_zero_size, take_body]
  · rw [extract_payload inside, or_iff_right (by omega), and_iff_right inside]

/-- Other lengths were written in front of the rest of a record. -/
theorem changedWithin_header (r : Record) (header : Bytes) (size : header.size = headerLength)
    (other : header ≠ Bytes.ofWord r.key.size ++ Bytes.ofWord r.value.size) :
    Bytes.ChangedWithin 0 headerLength r.image (header ++ r.body) := by
  have replaced := Bytes.changedWithin_replace ByteArray.empty r.body size other
  rwa [ByteArray.empty_append, ByteArray.empty_append, ← image_eq] at replaced

/-- Where the lengths in a changed header are within the limit and no longer than the payload, they
cut a record off it just if they are believable. -/
theorem read_of_changed_header {damaged : Bytes} (hit : Bytes.ChangedWithin 0 8 r.image damaged)
    (key : Bytes.wordAt damaged 0 = keyLength) (value : Bytes.wordAt damaged 4 = valueLength)
    (key_fits : keyLength ≤ maxLength) (value_fits : valueLength ≤ maxLength)
    (short : keyLength + valueLength ≤ (r.key ++ r.value).size) :
    (Believable (r.key ++ r.value) keyLength valueLength ∧
      read damaged 0 = .ok (some (cutOff (r.key ++ r.value) keyLength valueLength))) ∨
    (¬ Believable (r.key ++ r.value) keyLength valueLength ∧
      ∃ fault, read damaged 0 = .error fault) := by
  have size : damaged.size = 8 + ((r.key ++ r.value).size + 4) := by
    rw [hit.size, size_image_eq]
  -- Behind the header everything is as it was written.
  have behind : ∀ i j, damaged.extract (8 + i) (8 + j) = r.body.extract i j := by
    intro i j
    rw [hit.extract_eq (Or.inr (by omega)), extract_image]
  have slice : damaged.extract 8 (8 + keyLength + valueLength + 4) =
      r.body.extract 0 (keyLength + valueLength + 4) := by
    rw [← behind, ← Nat.add_assoc, ← Nat.add_assoc]
  have taken : cutOff (r.key ++ r.value) keyLength valueLength =
      ⟨damaged.extract 8 (8 + keyLength),
        damaged.extract (8 + keyLength) (8 + keyLength + valueLength)⟩ := by
    rw [cutOff, ← extract_payload (show keyLength ≤ _ by omega), ← extract_payload short,
      ← behind, ← behind, ← Nat.add_assoc]
  rw [believable_iff key_fits value_fits, ← take_front_eq_sealed_iff short, ← slice, taken]
  have result := read_of_lengths (b := damaged) key value key_fits value_fits (by omega)
  rw [Nat.zero_add] at result
  refine result.imp_right ?_
  rintro ⟨differ, stored, computed, -, refused⟩
  exact ⟨differ, _, refused⟩

/-- Where only the header of a written record was changed, what is read depends on the lengths that
are there now: they cut a record off the payload if they are believable, and nothing is read
otherwise. The record that was written is never read. -/
theorem changed_lengths_are_refused_unless {image damaged : Bytes} (encoded : r.encode = .ok image)
    (hit : Bytes.ChangedWithin 0 headerLength image damaged) :
    let keyLength := Bytes.wordAt damaged 0
    let valueLength := Bytes.wordAt damaged 4
    (Believable (r.key ++ r.value) keyLength valueLength →
      read damaged 0 = .ok (some (cutOff (r.key ++ r.value) keyLength valueLength))) ∧
    (¬ Believable (r.key ++ r.value) keyLength valueLength →
      ∃ fault, read damaged 0 = .error fault) ∧
    read damaged 0 ≠ .ok (some r) := by
  obtain ⟨-, rfl⟩ := encode_eq_ok encoded
  intro keyLength valueLength
  refine ⟨?_, ?_, ?_⟩
  · intro believable
    have short : keyLength + valueLength ≤ (r.key ++ r.value).size := by
      rcases believable.sum with all | ⟨front, -⟩ <;> omega
    rcases read_of_changed_header hit rfl rfl believable.key believable.value short with
      ⟨-, read⟩ | ⟨unbelievable, -⟩
    · exact read
    · exact absurd believable unbelievable
  · intro unbelievable
    by_cases within : keyLength ≤ maxLength ∧ valueLength ≤ maxLength ∧
      keyLength + valueLength ≤ (r.key ++ r.value).size
    · obtain ⟨key_fits, value_fits, short⟩ := within
      rcases read_of_changed_header hit rfl rfl key_fits value_fits short with
        ⟨believable, -⟩ | ⟨-, refused⟩
      · exact absurd believable unbelievable
      · exact refused
    · have size : damaged.size = 8 + ((r.key ++ r.value).size + 4) := by
        rw [hit.size, size_image_eq]
      have key : Bytes.wordAt damaged 0 = keyLength := rfl
      have value : Bytes.wordAt damaged (0 + 4) = valueLength := rfl
      exact read_of_excess key value (by omega) (by omega)
  · intro read
    -- The written form of the record would stand there unchanged.
    have stands := (read_eq_some_iff.1 read).2
    rw [Nat.zero_add, ← size_image, ← hit.size, ByteArray.extract_zero_size] at stands
    exact hit.changed stands

/-- The value of a record starts with four zero bytes, which are the checksum of nothing. When both
lengths are changed to zero, the empty record is read. -/
theorem embedded_checksum_is_believed :
    ∃ image damaged : Bytes,
      encode ⟨ByteArray.empty, Bytes.ofWord 0 ++ "x".toUTF8⟩ = .ok image ∧
      Bytes.ChangedWithin 0 headerLength image damaged ∧
      read damaged 0 = .ok (some ⟨ByteArray.empty, ByteArray.empty⟩) := by
  set r : Record := ⟨ByteArray.empty, Bytes.ofWord 0 ++ "x".toUTF8⟩ with r_def
  have encoded : r.encode = .ok r.image := encode_of_fits ⟨by decide, by decide⟩
  have hit := r.changedWithin_header (Bytes.ofWord 0 ++ Bytes.ofWord 0) rfl (by decide)
  have accepted := (changed_lengths_are_refused_unless encoded hit).1
  have key : Bytes.wordAt (Bytes.ofWord 0 ++ Bytes.ofWord 0 ++ r.body) 0 = 0 := by decide +kernel
  have value : Bytes.wordAt (Bytes.ofWord 0 ++ Bytes.ofWord 0 ++ r.body) 4 = 0 := by decide +kernel
  have nothing : cutOff (r.key ++ r.value) 0 0 = ⟨ByteArray.empty, ByteArray.empty⟩ := by
    rw [cutOff, ByteArray.extract_same]
  have sum : Bytes.wordAt (r.key ++ r.value) (0 + 0) =
      (cutOff (r.key ++ r.value) 0 0).checksum.toNat := by
    rw [nothing]
    decide +kernel
  rw [key, value, nothing] at accepted
  exact ⟨_, _, encoded, hit, accepted ⟨by decide, by decide, Or.inr ⟨by decide, sum⟩⟩⟩

/-- The lengths of the key `ab` and the value `c` are changed from two and one to one and two. The
key `a` and the value `bc` are read. -/
theorem moved_boundary_is_believed :
    ∃ image damaged : Bytes, encode ⟨"ab".toUTF8, "c".toUTF8⟩ = .ok image ∧
      Bytes.ChangedWithin 0 headerLength image damaged ∧
      read damaged 0 = .ok (some ⟨"a".toUTF8, "bc".toUTF8⟩) := by
  set r : Record := ⟨"ab".toUTF8, "c".toUTF8⟩ with r_def
  set other : Record := ⟨"a".toUTF8, "bc".toUTF8⟩ with other_def
  have hit := r.changedWithin_header (Bytes.ofWord 1 ++ Bytes.ofWord 2) rfl (by decide)
  -- The checksum does not tell where the key ends.
  have same : Bytes.ofWord 1 ++ Bytes.ofWord 2 ++ r.body = other.image := by decide +kernel
  rw [same] at hit
  refine ⟨_, _, encode_of_fits ⟨by decide, by decide⟩, hit, ?_⟩
  rw [read_eq_some_iff, Nat.zero_add, ← size_image, ByteArray.extract_zero_size]
  exact ⟨⟨by decide, by decide⟩, rfl⟩

/-! ### In front of damage -/

variable {records : List Record} {rest : Bytes}

theorem encodeAll_singleton (fits : r.Fits) : encodeAll [r] = .ok r.image := by
  rw [encodeAll_of_fits (List.forall_mem_singleton.2 fits), images_singleton]

/-- Where written records stand they are read in turn. -/
theorem readInTurn_images (fits : ∀ r ∈ records, r.Fits)
    (within : start + totalLength records ≤ b.size)
    (stands : b.extract start (start + totalLength records) = images records) :
    ReadInTurn b start records (start + totalLength records) := by
  induction records generalizing start with
  | nil => exact .nil start
  | cons r records ih =>
    rw [totalLength_cons, ← Nat.add_assoc] at within stands ⊢
    obtain ⟨here, behind⟩ := Bytes.extract_eq_append stands within (by omega)
    rw [size_image] at here behind
    exact .cons (read_eq_some_iff.2 ⟨fits r List.mem_cons_self, here⟩)
      (ih (fun r' hr => fits r' (List.mem_cons_of_mem r hr)) within behind)

/-- A scan finds the records in front of bytes from which no record is read. -/
theorem scan_of_ended (fits : ∀ r ∈ records, r.Fits)
    (ended : Ended (images records ++ rest) (totalLength records)) :
    (scan (images records ++ rest)).records = records ∧
      (scan (images records ++ rest)).length = totalLength records := by
  have size : (images records ++ rest).size = totalLength records + rest.size := by
    rw [ByteArray.size_append, size_images]
  have stands : (images records ++ rest).extract 0 (0 + totalLength records) = images records := by
    rw [Nat.zero_add, ByteArray.extract_append_eq_left (size_images records).symm]
  have row := readInTurn_images fits (by omega) stands
  rw [Nat.zero_add] at row
  exact row.scanFrom ended []

end Record

end FlatStore
