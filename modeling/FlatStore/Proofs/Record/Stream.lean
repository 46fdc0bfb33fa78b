import FlatStore.Proofs.Disk
import FlatStore.Proofs.Record

/-! # Records taken off a stream

    A stream of bytes is read from the front, and what was read is gone from
    it. Taking records off a stream one by one is reading them at positions of
    a file, each at the place that the one before it leads to
    (`meets_takeNext`), so it is seen what a read consumes:

    * **Round trip**: written records are taken off in order, and the stream
      goes on with the bytes behind them (`takenOff_images`); a record that was
      taken off has consumed its own written form (`takeNext_sound`).
    * **Unique parse**: so no bytes are the written form of two lists of records
      (`written_records_parse_uniquely`).
-/

namespace FlatStore

/-- A word is read the same in a slice that holds it. -/
theorem Bytes.wordAt_within {b : Bytes} {i start stop : Nat} (h : i + 4 ≤ stop - start)
    (within : stop ≤ b.size) : Bytes.wordAt (b.extract start stop) i = Bytes.wordAt b (start + i) := by
  have size : (b.extract start stop).size = stop - start := by
    rw [ByteArray.size_extract, Nat.min_eq_left within]
  rw [wordAt_extract (by omega), wordAt_extract (b := b) (by omega), ByteArray.extract_extract,
    Nat.min_eq_left (by omega), Nat.add_assoc]

namespace Record

variable {b rest : Bytes} {r : Record} {records : List Record}

/-! ### Taking bytes and records off -/

/-- Take so many bytes off the front. -/
def takeBytes (n : Nat) : EStateM RecordFault Bytes Bytes := fun b =>
  if b.size < n then .error .truncated b else .ok (b.extract 0 n) (b.extract n b.size)

/-- Take off a key and a value of these lengths and the checksum behind them. -/
def takeParts (keyLength valueLength : Nat) : EStateM RecordFault Bytes Record := do
  let key ← takeBytes keyLength
  let value ← takeBytes valueLength
  let trailer ← takeBytes trailerLength
  let r : Record := ⟨key, value⟩
  let stored := UInt32.ofNat (Bytes.wordAt trailer 0)
  if stored = r.checksum then return r else throw (.checksum stored r.checksum)

/-- Take a record off the front; nothing where no bytes are left. -/
def takeNext : EStateM RecordFault Bytes (Option Record) := do
  if (← get).size = 0 then return none
  else
    let header ← takeBytes headerLength
    let keyLength := Bytes.wordAt header 0
    let valueLength := Bytes.wordAt header 4
    if keyLength > maxLength then throw (.oversized keyLength)
    else if valueLength > maxLength then throw (.oversized valueLength)
    else return some (← takeParts keyLength valueLength)

/-- So many bytes stand behind a position. -/
theorem size_behind (b : Bytes) (i : Nat) : (b.extract i b.size).size = b.size - i := by
  rw [ByteArray.size_extract, Nat.min_self]

theorem takeBytes_of_short {i n : Nat} (h : i ≤ b.size) (short : b.size < i + n) :
    takeBytes n (b.extract i b.size) = .error .truncated (b.extract i b.size) := by
  rw [takeBytes, size_behind, if_pos (by omega)]

/-- Off the bytes from a position on, the next ones are taken where they stand. -/
theorem takeBytes_of_enough {i n : Nat} (enough : i + n ≤ b.size) :
    takeBytes n (b.extract i b.size) = .ok (b.extract i (i + n)) (b.extract (i + n) b.size) := by
  rw [takeBytes, size_behind, if_neg (by omega), ByteArray.extract_extract,
    ByteArray.extract_extract, Nat.add_zero, Nat.min_eq_left enough, Nat.add_sub_cancel' (by omega),
    Nat.min_self]

section Parts

variable {i keyLength valueLength : Nat}

/-- A record whose end is not there is truncated, whichever of its parts the end falls into. -/
theorem takeParts_of_short (h : i ≤ b.size)
    (short : b.size < i + keyLength + valueLength + trailerLength) :
    ∃ left, takeParts keyLength valueLength (b.extract i b.size) = .error .truncated left := by
  unfold takeParts
  by_cases key : b.size < i + keyLength
  · exact ⟨_, EStateM.bind_of_error (takeBytes_of_short h key)⟩
  rw [EStateM.bind_of_ok (takeBytes_of_enough (by omega))]
  by_cases value : b.size < i + keyLength + valueLength
  · exact ⟨_, EStateM.bind_of_error (takeBytes_of_short (by omega) value)⟩
  rw [EStateM.bind_of_ok (takeBytes_of_enough (by omega))]
  exact ⟨_, EStateM.bind_of_error (takeBytes_of_short (by omega) short)⟩

/-- The parts of a record are taken off where they stand. -/
theorem takeParts_of_enough (enough : i + keyLength + valueLength + trailerLength ≤ b.size) :
    takeParts keyLength valueLength (b.extract i b.size) =
      let r : Record := ⟨b.extract i (i + keyLength),
        b.extract (i + keyLength) (i + keyLength + valueLength)⟩
      let stored := UInt32.ofNat (Bytes.wordAt b (i + keyLength + valueLength))
      let left := b.extract (i + keyLength + valueLength + trailerLength) b.size
      if stored = r.checksum then .ok r left else .error (.checksum stored r.checksum) left := by
  have trailer : trailerLength = 4 := rfl
  unfold takeParts
  rw [EStateM.bind_of_ok (takeBytes_of_enough (by omega)),
    EStateM.bind_of_ok (takeBytes_of_enough (by omega)),
    EStateM.bind_of_ok (takeBytes_of_enough (by omega)),
    Bytes.wordAt_within (by omega) (by omega), Nat.add_zero]
  simp only
  split <;> rfl

end Parts

/-- Taking a record off the bytes from a position on is reading it there. What is left are the bytes
behind it. -/
theorem meets_takeNext {start : Nat} (h : start ≤ b.size) :
    Meets (fun found left => read b start = .ok found ∧
        left = b.extract (start + found.elim 0 encodedLength) b.size)
      (fun fault _ => read b start = .error fault) (takeNext (b.extract start b.size)) := by
  have header : headerLength = 8 := rfl
  unfold takeNext read
  rw [EStateM.get_bind, size_behind]
  by_cases ended : b.size ≤ start
  · rw [if_pos ended, if_pos (by omega)]
    exact ⟨rfl, rfl⟩
  rw [if_neg ended, if_neg (show b.size - start ≠ 0 by omega)]
  by_cases short : b.size < start + headerLength
  · rw [if_pos short, EStateM.bind_of_error (takeBytes_of_short h short)]
    rfl
  rw [if_neg short, EStateM.bind_of_ok (takeBytes_of_enough (by omega)),
    Bytes.wordAt_within (by omega) (by omega), Bytes.wordAt_within (by omega) (by omega),
    Nat.add_zero]
  generalize Bytes.wordAt b start = keyLength
  generalize Bytes.wordAt b (start + 4) = valueLength
  simp only
  by_cases long_key : keyLength > maxLength
  · rw [if_pos long_key, if_pos long_key]
    rfl
  by_cases long_value : valueLength > maxLength
  · simp only [if_neg long_key, if_pos long_value]
    rfl
  simp only [if_neg long_key, if_neg long_value]
  by_cases cut : b.size < start + headerLength + keyLength + valueLength + trailerLength
  · obtain ⟨left, run⟩ := takeParts_of_short (by omega) cut
    rw [EStateM.bind_of_error run, if_pos cut]
    rfl
  · have run := takeParts_of_enough (Nat.not_lt.1 cut)
    simp only at run
    rw [if_neg cut]
    split
    · next sums =>
      rw [if_pos sums] at run
      rw [EStateM.bind_of_ok run]
      refine ⟨rfl, ?_⟩
      -- The parts are as long as the header says, so the record ends where the checksum does.
      congr 1
      rw [Option.elim_some, encodedLength, ByteArray.size_extract, ByteArray.size_extract]
      omega
    · next sums =>
      rw [if_neg sums] at run
      rw [EStateM.bind_of_error run]
      rfl

/-! ### Taken off and written -/

/-- Taking a record off the front is reading it at the start. -/
theorem meets_takeNext_front (b : Bytes) :
    Meets (fun found left => read b 0 = .ok found ∧
        left = b.extract (found.elim 0 encodedLength) b.size)
      (fun fault _ => read b 0 = .error fault) (takeNext b) := by
  have taken := meets_takeNext (Nat.zero_le b.size)
  simpa only [ByteArray.extract_zero_size, Nat.zero_add] using taken

/-- A written record is taken off, and the bytes behind it are left. -/
theorem takeNext_image (fits : r.Fits) (rest : Bytes) :
    takeNext (r.image ++ rest) = .ok (some r) rest := by
  generalize hb : r.image ++ rest = b
  have stands : b.extract 0 (0 + r.encodedLength) = r.image := by
    rw [← hb, Nat.zero_add, ← size_image, ByteArray.extract_append_eq_left rfl]
  have found : read b 0 = .ok (some r) := read_eq_some_iff.2 ⟨fits, stands⟩
  have taken := meets_takeNext_front b
  cases run : takeNext b with
  | error fault left =>
    have failed := found.symm.trans (taken.of_error run)
    cases failed
  | ok here left =>
    obtain ⟨same, behind⟩ := taken.of_ok run
    obtain rfl := Except.ok.inj (found.symm.trans same)
    rw [behind, Option.elim_some, ← hb, ← size_image, ByteArray.size_append,
      ByteArray.extract_append_eq_right rfl rfl]

/-- A record that was taken off has consumed its own written form. -/
theorem takeNext_sound (h : takeNext b = .ok (some r) rest) : r.Fits ∧ b = r.image ++ rest := by
  obtain ⟨found, behind⟩ := (meets_takeNext_front b).of_ok h
  obtain ⟨fits, stands⟩ := read_eq_some_iff.1 found
  have whole := (standsAt_of_read found).2.whole
  rw [Nat.zero_add] at stands whole
  refine ⟨fits, ?_⟩
  rw [behind, Option.elim_some, ← stands,
    ← ByteArray.extract_eq_extract_append_extract _ (Nat.zero_le _) whole,
    ByteArray.extract_zero_size]

/-- Records taken off one after the other, each as long as its written form, and what is left. -/
inductive TakenOff : Bytes → List Record → Bytes → Prop where
  | nil (b : Bytes) : TakenOff b [] b
  | cons {b left rest : Bytes} {r : Record} {records : List Record}
      (taken : takeNext b = .ok (some r) left) (length : b.size = r.encodedLength + left.size)
      (others : TakenOff left records rest) : TakenOff b (r :: records) rest

/-- Written records are taken off in order, and the bytes behind them are left. -/
theorem takenOff_images (fits : ∀ r ∈ records, r.Fits) (rest : Bytes) :
    TakenOff (images records ++ rest) records rest := by
  induction records with
  | nil =>
    rw [images, ByteArray.empty_append]
    exact .nil rest
  | cons r records ih =>
    have others := ih fun r' hr => fits r' (List.mem_cons_of_mem r hr)
    rw [images, ByteArray.append_assoc]
    refine .cons (takeNext_image (fits r List.mem_cons_self) _) ?_ others
    rw [ByteArray.size_append, size_image]

/-! ### Written forms -/

/-- A record is refused just for a part beyond the limit, and the key is looked at first. -/
theorem encode_eq_error_iff {fault : RecordFault} :
    r.encode = .error fault ↔ (maxLength < r.key.size ∨ maxLength < r.value.size) ∧
      fault = .oversized (if maxLength < r.key.size then r.key.size else r.value.size) := by
  unfold encode
  by_cases key : maxLength < r.key.size
  · simp [key, eq_comm]
  · by_cases value : maxLength < r.value.size
    · simp [key, value, eq_comm]
    · simp [key, value]

/-- The written forms of records one after the other, unless one of them is beyond the limits. -/
def encodeAll : List Record → Except RecordFault Bytes
  | [] => .ok ByteArray.empty
  | r :: records =>
    match r.encode with
    | .error fault => .error fault
    | .ok image =>
      match encodeAll records with
      | .error fault => .error fault
      | .ok images => .ok (image ++ images)

theorem encodeAll_of_fits (fits : ∀ r ∈ records, r.Fits) :
    encodeAll records = .ok (images records) := by
  induction records with
  | nil => rfl
  | cons r records ih =>
    have others := ih fun r' hr => fits r' (List.mem_cons_of_mem r hr)
    simp only [encodeAll, encode_of_fits (fits r List.mem_cons_self), others, images]

theorem encodeAll_eq_ok {bytes : Bytes} (h : encodeAll records = .ok bytes) :
    (∀ r ∈ records, r.Fits) ∧ bytes = images records := by
  induction records generalizing bytes with
  | nil => exact ⟨List.forall_mem_nil Fits, (Except.ok.inj h).symm⟩
  | cons r records ih =>
    unfold encodeAll at h
    split at h
    · cases h
    · next image written =>
      obtain ⟨fits, rfl⟩ := encode_eq_ok written
      split at h
      · cases h
      · next others hothers =>
        obtain ⟨fits', rfl⟩ := ih hothers
        exact ⟨List.forall_mem_cons.2 ⟨fits, fits'⟩, (Except.ok.inj h).symm⟩

/-- What is read at a position is what is taken off the bytes from there on. -/
theorem read_eq_ok_iff {start : Nat} {found : Option Record} (h : start ≤ b.size) :
    read b start = .ok found ↔ ∃ left, takeNext (b.extract start b.size) = .ok found left := by
  have taken := meets_takeNext h
  constructor
  · intro here
    cases run : takeNext (b.extract start b.size) with
    | ok found' left =>
      obtain rfl := Except.ok.inj (here.symm.trans (taken.of_ok run).1)
      exact ⟨left, rfl⟩
    | error fault left =>
      have failed := here.symm.trans (taken.of_error run)
      cases failed
  · rintro ⟨left, run⟩
    exact (taken.of_ok run).1

/-- Written records, with any bytes behind them, are taken off again in order, each from as many bytes
as it takes up, and the bytes behind them are left; and reading a record at a position of a file is
taking it off the bytes from there on. Conversely a record that was taken off has consumed its own
written form. A record is refused just if its key or its value is longer than the limit. So no two
lists of records have the same written form. -/
theorem written_records_parse_uniquely :
    (∀ (records : List Record) (rest : Bytes),
      (∀ r ∈ records, r.key.size ≤ maxLength ∧ r.value.size ≤ maxLength) →
      ∃ bytes, encodeAll records = .ok bytes ∧ TakenOff (bytes ++ rest) records rest) ∧
    (∀ (b : Bytes) (start : Nat) (found : Option Record), start ≤ b.size →
      (read b start = .ok found ↔ ∃ left, takeNext (b.extract start b.size) = .ok found left)) ∧
    (∀ (b left : Bytes) (r : Record), takeNext b = .ok (some r) left →
      ∃ image, r.encode = .ok image ∧ b = image ++ left) ∧
    (∀ (r : Record) (fault : RecordFault), r.encode = .error fault ↔
      (maxLength < r.key.size ∨ maxLength < r.value.size) ∧
        fault = .oversized (if maxLength < r.key.size then r.key.size else r.value.size)) ∧
    (∀ (records records' : List Record) (bytes : Bytes), encodeAll records = .ok bytes →
      encodeAll records' = .ok bytes → records = records') := by
  refine ⟨?_, fun b start found h => read_eq_ok_iff h, ?_, fun r fault => encode_eq_error_iff, ?_⟩
  · intro records rest fits
    exact ⟨_, encodeAll_of_fits fits, takenOff_images fits rest⟩
  · intro b left r taken
    obtain ⟨fits, whole⟩ := takeNext_sound taken
    exact ⟨_, encode_of_fits fits, whole⟩
  · intro records records' bytes written written'
    obtain ⟨fits, rfl⟩ := encodeAll_eq_ok written
    obtain ⟨fits', same⟩ := encodeAll_eq_ok written'
    -- A scan of the bytes finds the one list as well as the other.
    have scanned := scan_images fits
    rw [same, scan_images fits'] at scanned
    exact (congrArg Scan.records scanned).symm

/-- Two records, the second with an empty value, in front of six bytes of a third: both are taken off,
the first from its own seventeen bytes, and the six bytes are left. -/
theorem records_before_a_torn_one :
    let torn : Bytes := ⟨#[5, 0, 0, 0, 9, 0]⟩
    let first : Record := ⟨"ab".toUTF8, "xyz".toUTF8⟩
    let second : Record := ⟨"k2".toUTF8, ByteArray.empty⟩
    (∀ r ∈ [first, second], r.key.size ≤ maxLength ∧ r.value.size ≤ maxLength) ∧
      ∃ bytes left image, encodeAll [first, second] = .ok bytes ∧
        TakenOff (bytes ++ torn) [first, second] torn ∧
        takeNext (bytes ++ torn) = .ok (some first) left ∧ first.encode = .ok image ∧
        image.size = 17 ∧ bytes ++ torn = image ++ left := by
  intro torn first second
  have fits : ∀ r ∈ [first, second], r.key.size ≤ maxLength ∧ r.value.size ≤ maxLength := by
    decide
  obtain ⟨bytes, written, taken⟩ := written_records_parse_uniquely.1 [first, second] torn fits
  cases id taken with
  | cons here _ _ =>
    obtain ⟨image, encoded, whole⟩ := written_records_parse_uniquely.2.2.1 _ _ _ here
    have size : image.size = 17 := by
      rw [(encode_eq_ok encoded).2, size_image]
      decide
    exact ⟨fits, bytes, _, image, written, taken, here, encoded, size, whole⟩

end Record

end FlatStore
