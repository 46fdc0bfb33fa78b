import FlatStore.Record
import Mathlib.Tactic.Set

/-! # Written records

    A record is read at a position of a file exactly where its written form
    stands (`read_eq_some_iff`), so a file that is a row of written records is
    read back as just those, and whatever a scan of any file finds is such a
    row.
-/

namespace FlatStore

namespace Bytes

/-! ### Slices -/

/-- A slice that is two strings in a row is the one slice behind the other. -/
theorem extract_eq_append {b x y : Bytes} {start stop : Nat}
    (h : b.extract start stop = x ++ y) (hstop : stop ≤ b.size) (hstart : start ≤ stop) :
    b.extract start (start + x.size) = x ∧ b.extract (start + x.size) stop = y := by
  have sizes : stop - start = x.size + y.size := by
    have := congrArg ByteArray.size h
    rw [ByteArray.size_append, ByteArray.size_extract] at this
    omega
  have split := ByteArray.extract_eq_extract_append_extract (a := b) (start + x.size)
    (Nat.le_add_right start x.size) (show start + x.size ≤ stop by omega)
  rw [split] at h
  have size_left : (b.extract start (start + x.size)).size = x.size := by
    rw [ByteArray.size_extract]
    omega
  have left := ByteArray.append_inj_left h size_left
  rw [left, ByteArray.append_right_inj] at h
  exact ⟨left, h⟩

theorem byteAt_of_lt {b : Bytes} {i : Nat} (h : i < b.size) : byteAt b i = b[i].toNat := by
  rw [byteAt, getElem?_pos b i h]

/-- A word is read from the four bytes where it stands. -/
theorem wordAt_extract {b : Bytes} {i : Nat} (h : i + 4 ≤ b.size) :
    wordAt b i = wordAt (b.extract i (i + 4)) 0 := by
  have size : (b.extract i (i + 4)).size = 4 := by
    rw [ByteArray.size_extract]
    omega
  have byte : ∀ j < 4, byteAt (b.extract i (i + 4)) j = byteAt b (i + j) := by
    intro j hj
    rw [byteAt_of_lt (show j < (b.extract i (i + 4)).size by omega),
      byteAt_of_lt (show i + j < b.size by omega), ByteArray.getElem_extract]
  simp only [wordAt, byte 0 (by omega), byte 1 (by omega), byte 2 (by omega), byte 3 (by omega),
    Nat.zero_add, Nat.add_zero]

theorem wordAt_of_lt {b : Bytes} {i : Nat} (h : i + 4 ≤ b.size) :
    wordAt b i = b[i].toNat + 0x100 * b[i + 1].toNat + 0x10000 * b[i + 2].toNat +
      0x1000000 * b[i + 3].toNat := by
  rw [wordAt, byteAt_of_lt (by omega), byteAt_of_lt (by omega), byteAt_of_lt (by omega),
    byteAt_of_lt (by omega)]

theorem wordAt_lt {b : Bytes} {i : Nat} (h : i + 4 ≤ b.size) : wordAt b i < 0x100000000 := by
  rw [wordAt_of_lt h]
  have h₀ := b[i].toNat_lt
  have h₁ := b[i + 1].toNat_lt
  have h₂ := b[i + 2].toNat_lt
  have h₃ := b[i + 3].toNat_lt
  omega

/-- Four bytes are those of the number that they are read as. -/
theorem ofWord_wordAt {b : Bytes} {i : Nat} (h : i + 4 ≤ b.size) :
    ofWord (wordAt b i) = b.extract i (i + 4) := by
  have h₀ := b[i].toNat_lt
  have h₁ := b[i + 1].toNat_lt
  have h₂ := b[i + 2].toNat_lt
  have h₃ := b[i + 3].toNat_lt
  -- Byte by byte: the four bytes are the digits of the number to the base 256.
  have digit : ∀ (byte : UInt8) (n : Nat), n % 256 = byte.toNat → UInt8.ofNat n = byte := by
    intro byte n hn
    rw [← UInt8.toNat_inj, UInt8.toNat_ofNat']
    exact hn
  rw [ByteArray.extract_add_four h, wordAt_of_lt h, ofWord, digit b[i] _ (by omega),
    digit b[i + 1] _ (by omega), digit b[i + 2] _ (by omega), digit b[i + 3] _ (by omega)]
  rfl

end Bytes

namespace Record

/-! ### One record -/

/-- Neither part of the record is longer than the limit. -/
def Fits (r : Record) : Prop := r.key.size ≤ maxLength ∧ r.value.size ≤ maxLength

theorem encode_of_fits {r : Record} (h : r.Fits) : r.encode = .ok r.image := by
  rw [encode, if_neg (Nat.not_lt.2 h.1), if_neg (Nat.not_lt.2 h.2)]

/-- Only a record within the limits is written out, in its written form. -/
theorem encode_eq_ok {r : Record} {image : Bytes} (h : r.encode = .ok image) :
    r.Fits ∧ image = r.image := by
  unfold encode at h
  split at h
  · cases h
  · next key =>
    split at h
    · cases h
    · next value =>
      cases h
      exact ⟨⟨Nat.not_lt.1 key, Nat.not_lt.1 value⟩, rfl⟩

theorem encodedLength_pos (r : Record) : 0 < r.encodedLength := by
  rw [encodedLength, headerLength, trailerLength]
  omega

theorem encodedLength_eq (r : Record) : r.encodedLength = 8 + r.key.size + r.value.size + 4 := rfl

/-- The parts of a record stand one behind the other in a file. -/
structure StandsAt (r : Record) (b : Bytes) (start : Nat) : Prop where
  whole : start + r.encodedLength ≤ b.size
  keyLength : Bytes.wordAt b start = r.key.size
  valueLength : Bytes.wordAt b (start + 4) = r.value.size
  key : b.extract (start + headerLength) (start + headerLength + r.key.size) = r.key
  value : b.extract (start + headerLength + r.key.size)
    (start + headerLength + r.key.size + r.value.size) = r.value
  sum : Bytes.wordAt b (start + headerLength + r.key.size + r.value.size) = r.checksum.toNat

/-- A record that stands in a file is read there. -/
theorem StandsAt.read {r : Record} {b : Bytes} {start : Nat} (h : r.StandsAt b start)
    (fits : r.Fits) : Record.read b start = .ok (some r) := by
  have whole := h.whole
  have header : headerLength = 8 := rfl
  have trailer : trailerLength = 4 := rfl
  have key_fits : ¬ r.key.size > maxLength := Nat.not_lt.2 fits.1
  have value_fits : ¬ r.value.size > maxLength := Nat.not_lt.2 fits.2
  rw [encodedLength_eq] at whole
  unfold Record.read
  simp only [h.keyLength, h.valueLength, h.key, h.value, h.sum, key_fits, value_fits, if_false,
    UInt32.ofNat_toNat, if_true]
  rw [if_neg (by omega), if_neg (by omega), if_neg (by omega)]

/-- A record that is read stands there. -/
theorem standsAt_of_read {b : Bytes} {start : Nat} {r : Record}
    (h : read b start = .ok (some r)) : r.Fits ∧ r.StandsAt b start := by
  have header : headerLength = 8 := rfl
  have trailer : trailerLength = 4 := rfl
  unfold read at h
  -- A record is given only if none of the checks that come before its checksum ends the read.
  by_cases ended : b.size ≤ start
  · simp [ended] at h
  by_cases short : b.size < start + headerLength
  · simp [ended, short] at h
  by_cases long_key : Bytes.wordAt b start > maxLength
  · simp [ended, short, long_key] at h
  by_cases long_value : Bytes.wordAt b (start + 4) > maxLength
  · simp [ended, short, long_key, long_value] at h
  rw [if_neg ended, if_neg short] at h
  set keyLength := Bytes.wordAt b start with hkey
  set valueLength := Bytes.wordAt b (start + 4) with hvalue
  by_cases cut : b.size < start + headerLength + keyLength + valueLength + trailerLength
  · simp [long_key, long_value, cut] at h
  have key_size : (b.extract (start + headerLength) (start + headerLength + keyLength)).size =
      keyLength := by
    rw [ByteArray.size_extract]
    omega
  have value_size : (b.extract (start + headerLength + keyLength)
      (start + headerLength + keyLength + valueLength)).size = valueLength := by
    rw [ByteArray.size_extract]
    omega
  have below := Bytes.wordAt_lt (b := b) (i := start + headerLength + keyLength + valueLength)
    (by omega)
  simp only [long_key, long_value, cut, if_false] at h
  split at h
  · next sums =>
    obtain rfl := Option.some.inj (Except.ok.inj h)
    refine ⟨⟨?_, ?_⟩, ?_, key_size.symm, value_size.symm, ?_, ?_, ?_⟩
    all_goals simp only [encodedLength_eq, key_size, value_size, ← sums]
    · omega
    · omega
    · omega
    · rw [UInt32.toNat_ofNat', Nat.mod_eq_of_lt below]
  · cases h

/-- The parts of a record in a row are its written form. -/
theorem StandsAt.extract_eq_image {r : Record} {b : Bytes} {start : Nat} (h : r.StandsAt b start) :
    b.extract start (start + r.encodedLength) = r.image := by
  have whole := h.whole
  have header : headerLength = 8 := rfl
  rw [encodedLength_eq] at whole
  have stop : start + r.encodedLength = start + headerLength + r.key.size + r.value.size + 4 := by
    rw [encodedLength_eq]
    omega
  -- The words that were read are written back as they stand in the file.
  have key_length : Bytes.ofWord r.key.size = b.extract start (start + 4) := by
    rw [← h.keyLength, Bytes.ofWord_wordAt (by omega)]
  have value_length : Bytes.ofWord r.value.size =
      b.extract (start + 4) (start + headerLength) := by
    rw [← h.valueLength, Bytes.ofWord_wordAt (by omega)]
    rfl
  have sum : Bytes.ofWord r.checksum.toNat =
      b.extract (start + headerLength + r.key.size + r.value.size)
        (start + headerLength + r.key.size + r.value.size + 4) := by
    rw [← h.sum, Bytes.ofWord_wordAt (by omega)]
  have glue : ∀ i j k, i ≤ j → j ≤ k → b.extract i j ++ b.extract j k = b.extract i k :=
    fun i j k hi hk => (ByteArray.extract_eq_extract_append_extract j hi hk).symm
  calc b.extract start (start + r.encodedLength)
      = b.extract start (start + 4) ++ b.extract (start + 4) (start + headerLength) ++
          b.extract (start + headerLength) (start + headerLength + r.key.size) ++
          b.extract (start + headerLength + r.key.size)
            (start + headerLength + r.key.size + r.value.size) ++
          b.extract (start + headerLength + r.key.size + r.value.size)
            (start + headerLength + r.key.size + r.value.size + 4) := by
        rw [stop, glue _ _ _ (by omega) (by omega), glue _ _ _ (by omega) (by omega),
          glue _ _ _ (by omega) (by omega), glue _ _ _ (by omega) (by omega)]
    _ = r.image := by
        rw [image, sum, key_length, value_length, h.key, h.value]

/-- Where the written form of a record stands, its parts do. -/
theorem standsAt_of_extract {r : Record} {b : Bytes} {start : Nat} (fits : r.Fits)
    (h : b.extract start (start + r.encodedLength) = r.image) : r.StandsAt b start := by
  have length := r.encodedLength_eq
  have size := congrArg ByteArray.size h
  rw [ByteArray.size_extract, size_image] at size
  obtain ⟨key_fits, value_fits⟩ := fits
  simp only [maxLength] at key_fits value_fits
  simp only [image, ByteArray.append_assoc] at h
  -- The parts are cut off from the front one by one.
  obtain ⟨key_length, h⟩ := Bytes.extract_eq_append h (by omega) (by omega)
  rw [Bytes.size_ofWord] at key_length h
  obtain ⟨value_length, h⟩ := Bytes.extract_eq_append h (by omega) (by omega)
  rw [Bytes.size_ofWord] at value_length h
  obtain ⟨key, h⟩ := Bytes.extract_eq_append h (by omega) (by omega)
  obtain ⟨value, trailer⟩ := Bytes.extract_eq_append h (by omega) (by omega)
  have header : headerLength = 8 := rfl
  have stop : start + r.encodedLength = start + headerLength + r.key.size + r.value.size + 4 := by
    omega
  have sum : b.extract (start + headerLength + r.key.size + r.value.size)
      (start + headerLength + r.key.size + r.value.size + 4) = Bytes.ofWord r.checksum.toNat := by
    rw [← stop]
    exact trailer
  have whole : start + r.encodedLength ≤ b.size := by omega
  refine ⟨whole, ?_, ?_, key, value, ?_⟩
  · rw [Bytes.wordAt_extract (by omega), key_length, Bytes.wordAt_ofWord _ (by omega)]
  · rw [Bytes.wordAt_extract (by omega), value_length, Bytes.wordAt_ofWord _ (by omega)]
  · have below := r.checksum.toNat_lt
    rw [Bytes.wordAt_extract (by omega), sum, Bytes.wordAt_ofWord _ (by omega)]

/-- A record is read where its written form stands, and only there. -/
theorem read_eq_some_iff {b : Bytes} {start : Nat} {r : Record} :
    read b start = .ok (some r) ↔
      r.Fits ∧ b.extract start (start + r.encodedLength) = r.image := by
  constructor
  · intro h
    obtain ⟨fits, stands⟩ := standsAt_of_read h
    exact ⟨fits, stands.extract_eq_image⟩
  · rintro ⟨fits, h⟩
    exact (standsAt_of_extract fits h).read fits

theorem read_at_end {b : Bytes} {start : Nat} (h : b.size ≤ start) : read b start = .ok none := by
  rw [read, if_pos h]

/-! ### Rows of records -/

/-- Records written out one after the other. -/
def images : List Record → Bytes
  | [] => ByteArray.empty
  | r :: rest => r.image ++ images rest

@[simp]
theorem images_append (a b : List Record) : images (a ++ b) = images a ++ images b := by
  induction a with
  | nil => simp [images]
  | cons r rest ih => rw [List.cons_append, images, images, ih, ByteArray.append_assoc]

theorem images_singleton (r : Record) : images [r] = r.image := by
  rw [images, images, ByteArray.append_empty]

@[simp]
theorem size_images (records : List Record) : (images records).size = totalLength records := by
  induction records with
  | nil => rfl
  | cons r rest ih => rw [images, ByteArray.size_append, ih, size_image, totalLength_cons]

theorem totalLength_of_perm {a b : List Record} (h : a.Perm b) :
    totalLength a = totalLength b := by
  induction h with
  | nil => rfl
  | cons r _ ih => rw [totalLength_cons, totalLength_cons, ih]
  | swap r r' rest => simp only [totalLength_cons]; omega
  | trans _ _ ih ih' => exact ih.trans ih'

theorem totalLength_le_of_sublist {a b : List Record} (h : a.Sublist b) :
    totalLength a ≤ totalLength b := by
  induction h with
  | slnil => exact Nat.le_refl _
  | cons r _ ih => rw [totalLength_cons]; omega
  | cons_cons r _ ih => rw [totalLength_cons, totalLength_cons]; omega

/-- From where written records stand up to the end of a file, a scan finds them all. -/
theorem scanFrom_images {b : Bytes} {start : Nat} {records : List Record}
    (fits : ∀ r ∈ records, r.Fits) (within : start ≤ b.size)
    (h : b.extract start b.size = images records) (before : List Record) :
    scanFrom b start before = ⟨before.reverse ++ records, b.size, none⟩ := by
  induction records generalizing start before with
  | nil =>
    have ended : b.size ≤ start := by
      have := congrArg ByteArray.size h
      rw [ByteArray.size_extract, images, ByteArray.size_empty] at this
      omega
    rw [scanFrom_of_end before (read_at_end ended), List.append_nil]
    congr
    omega
  | cons r rest ih =>
    have size := congrArg ByteArray.size h
    rw [ByteArray.size_extract, size_images, totalLength_cons] at size
    rw [images] at h
    -- The first record stands at the front, the others behind it up to the end.
    obtain ⟨here, behind⟩ := Bytes.extract_eq_append h (Nat.le_refl _) within
    rw [size_image] at here behind
    have found := read_eq_some_iff.2 ⟨fits r List.mem_cons_self, here⟩
    rw [scanFrom_of_record before found,
      ih (fun r' hr => fits r' (List.mem_cons_of_mem r hr)) (by omega) behind, List.reverse_cons,
      List.append_assoc, List.singleton_append]

/-- A row of written records is read back. -/
theorem scan_images {records : List Record} (fits : ∀ r ∈ records, r.Fits) :
    scan (images records) = ⟨records, totalLength records, none⟩ := by
  rw [scan, scanFrom_images fits (Nat.zero_le _) ByteArray.extract_zero_size, size_images]
  rfl

theorem scan_empty : scan ByteArray.empty = ⟨[], 0, none⟩ :=
  scan_images (List.forall_mem_nil Fits)

/-- What a scan finds behind the records read before stands there as a row of written records. -/
theorem scanFrom_sound (b : Bytes) (start : Nat) (before : List Record) :
    ∃ records, (scanFrom b start before).records = before.reverse ++ records ∧
      (∀ r ∈ records, r.Fits) ∧
      b.extract start (scanFrom b start before).length = images records := by
  fun_induction scanFrom b start before with
  | case1 start before h => exact ⟨[], by simp, by simp, ByteArray.extract_same⟩
  | case2 start before r h ih =>
    obtain ⟨records, found, fits, stands⟩ := ih
    obtain ⟨fits_r, here⟩ := read_eq_some_iff.1 h
    refine ⟨r :: records, ?_, ?_, ?_⟩
    · rw [found, List.reverse_cons, List.append_assoc, List.singleton_append]
    · exact fun r' hr => (List.mem_cons.1 hr).elim (fun he => he ▸ fits_r) (fits r')
    · -- The scan goes on behind the record, so it ends no earlier than there.
      have ahead := length_scanFrom b (start + r.encodedLength) (r :: before)
      rw [found] at ahead
      simp only [totalLength_cons, totalLength_append, totalLength_reverse] at ahead
      rw [ByteArray.extract_eq_extract_append_extract (start + r.encodedLength) (by omega)
        (by omega), here, stands, images]
  | case3 start before fault h => exact ⟨[], by simp, by simp, ByteArray.extract_same⟩

/-- The part of a file that a scan accepts is a row of written records. -/
theorem extract_scan (b : Bytes) :
    (∀ r ∈ (scan b).records, r.Fits) ∧ b.extract 0 (scan b).length = images (scan b).records := by
  obtain ⟨records, found, fits, stands⟩ := scanFrom_sound b 0 []
  rw [List.reverse_nil, List.nil_append] at found
  unfold scan
  rw [found]
  exact ⟨fits, stands⟩

theorem length_scan_le (b : Bytes) : (scan b).length ≤ b.size := by
  have stands := congrArg ByteArray.size (extract_scan b).2
  rw [ByteArray.size_extract, size_images, length_scan] at stands
  rw [length_scan]
  omega

end Record

end FlatStore
