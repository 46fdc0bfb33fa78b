import FlatStore.Bytes
import FlatStore.Checksum

/-! # Records

    A record holds one key and its value. Written out it is

    * the length of the key and the length of the value, four bytes each,
    * the key, the value,
    * the checksum of the key and the value, four bytes,

    all numbers little-endian. Neither part may be longer than 64 MiB, so a
    reader never has to believe an absurd length. `Record.read` reads the
    record at a position of a file and says what is wrong when there is none;
    `Record.scan` goes on from each record to the next.
-/

namespace FlatStore

/-- One key and its value. -/
structure Record where
  key : Bytes
  value : Bytes

/-- Why bytes are not a record, or a record cannot be written. -/
inductive RecordFault where
  /-- A part is longer than the limit. -/
  | oversized (length : Nat)
  /-- The bytes end inside the record. -/
  | truncated
  /-- The checksum on file is not that of the key and the value. -/
  | checksum (stored computed : UInt32)
  deriving DecidableEq

/-- A word as `0x` and eight hexadecimal digits. -/
def wordHex (word : UInt32) : String :=
  let digits := Nat.toDigits 16 word.toNat
  String.ofList (['0', 'x'] ++ List.replicate (8 - digits.length) '0' ++ digits)

/-- The wording of a fault. -/
def RecordFault.message : RecordFault → String
  | .oversized length => "record length " ++ toString length ++ " exceeds limit"
  | .truncated => "truncated record"
  | .checksum stored computed =>
    "checksum mismatch: stored " ++ wordHex stored ++ ", computed " ++ wordHex computed

namespace Record

/-- The longest key and the longest value. -/
def maxLength : Nat := 64 * 1024 * 1024

/-- Bytes before the key. -/
def headerLength : Nat := 8

/-- Bytes after the value. -/
def trailerLength : Nat := 4

/-- The bytes that a record takes when written out. -/
def encodedLength (r : Record) : Nat :=
  headerLength + r.key.size + r.value.size + trailerLength

/-- The checksum of the key and the value. -/
def checksum (r : Record) : UInt32 :=
  Checksum.ofPieces r.key r.value

/-- The written form, whatever the lengths. -/
def image (r : Record) : Bytes :=
  Bytes.ofWord r.key.size ++ Bytes.ofWord r.value.size ++ r.key ++ r.value ++
    Bytes.ofWord r.checksum.toNat

/-- The written form of a record whose parts are within the limit; the key is looked at first. -/
def encode (r : Record) : Except RecordFault Bytes :=
  if r.key.size > maxLength then .error (.oversized r.key.size)
  else if r.value.size > maxLength then .error (.oversized r.value.size)
  else .ok r.image

/-- The record that starts at a position of a file; nothing when the file is at its end there. -/
def read (b : Bytes) (start : Nat) : Except RecordFault (Option Record) :=
  if b.size ≤ start then .ok none
  else if b.size < start + headerLength then .error .truncated
  else
    let keyLength := Bytes.wordAt b start
    let valueLength := Bytes.wordAt b (start + 4)
    if keyLength > maxLength then .error (.oversized keyLength)
    else if valueLength > maxLength then .error (.oversized valueLength)
    else
      -- Both lengths are within the limit, so the file is asked for no absurd amount of bytes.
      let keyStart := start + headerLength
      let valueStart := keyStart + keyLength
      let valueEnd := valueStart + valueLength
      if b.size < valueEnd + trailerLength then .error .truncated
      else
        let r : Record := ⟨b.extract keyStart valueStart, b.extract valueStart valueEnd⟩
        let stored := UInt32.ofNat (Bytes.wordAt b valueEnd)
        if stored = r.checksum then .ok (some r) else .error (.checksum stored r.checksum)

@[simp]
theorem size_image (r : Record) : r.image.size = r.encodedLength := by
  simp [image, encodedLength, headerLength, trailerLength, ByteArray.size_append]

/-- Where a record can be read the file has not come to its end. -/
theorem start_lt_of_read {b : Bytes} {start : Nat} {r : Record}
    (h : read b start = .ok (some r)) : start < b.size := by
  by_cases ended : b.size ≤ start
  · simp [read, ended] at h
  · omega

/-! ### Whole files -/

/-- The bytes that records take when written out one after the other. -/
def totalLength (records : List Record) : Nat :=
  records.foldl (fun length r => length + r.encodedLength) 0

theorem foldl_encodedLength (records : List Record) (length : Nat) :
    records.foldl (fun length r => length + r.encodedLength) length =
      length + totalLength records := by
  unfold totalLength
  induction records generalizing length with
  | nil => simp
  | cons r rest ih => rw [List.foldl_cons, List.foldl_cons, ih, ih (0 + _)]; omega

@[simp]
theorem totalLength_nil : totalLength [] = 0 := rfl

@[simp]
theorem totalLength_cons (r : Record) (rest : List Record) :
    totalLength (r :: rest) = r.encodedLength + totalLength rest := by
  rw [totalLength, List.foldl_cons, foldl_encodedLength]
  omega

@[simp]
theorem totalLength_append (a b : List Record) :
    totalLength (a ++ b) = totalLength a + totalLength b := by
  induction a with
  | nil => simp
  | cons r rest ih => rw [List.cons_append, totalLength_cons, totalLength_cons, ih]; omega

@[simp]
theorem totalLength_reverse (records : List Record) :
    totalLength records.reverse = totalLength records := by
  induction records with
  | nil => rfl
  | cons r rest ih => simp [ih, Nat.add_comm]

/-- The records of a file up to the first place where there is none. -/
structure Scan where
  records : List Record
  /-- The bytes that they take up. -/
  length : Nat
  /-- What is wrong behind the last record; nothing when the file ends there. -/
  fault : Option RecordFault

/-- Read records from a position on as long as there are any, behind those read before, of which
the last comes first. -/
def scanFrom (b : Bytes) (start : Nat) (before : List Record) : Scan :=
  match _h : read b start with
  | .ok none => ⟨before.reverse, start, none⟩
  | .ok (some r) => scanFrom b (start + r.encodedLength) (r :: before)
  | .error fault => ⟨before.reverse, start, some fault⟩
termination_by b.size - start
decreasing_by
  have := start_lt_of_read _h
  simp only [encodedLength, headerLength]
  omega

theorem scanFrom_of_end {b : Bytes} {start : Nat} (before : List Record)
    (h : read b start = .ok none) : scanFrom b start before = ⟨before.reverse, start, none⟩ := by
  rw [scanFrom]
  split <;> simp_all

theorem scanFrom_of_record {b : Bytes} {start : Nat} {r : Record} (before : List Record)
    (h : read b start = .ok (some r)) :
    scanFrom b start before = scanFrom b (start + r.encodedLength) (r :: before) := by
  rw [scanFrom]
  split <;> simp_all

theorem scanFrom_of_fault {b : Bytes} {start : Nat} {fault : RecordFault} (before : List Record)
    (h : read b start = .error fault) :
    scanFrom b start before = ⟨before.reverse, start, some fault⟩ := by
  rw [scanFrom]
  split <;> simp_all

/-- A scan has come as far as its records are long. -/
theorem length_scanFrom (b : Bytes) (start : Nat) (before : List Record) :
    (scanFrom b start before).length + totalLength before =
      start + totalLength (scanFrom b start before).records := by
  fun_induction scanFrom b start before with
  | case1 start before h => simp
  | case2 start before r h ih =>
    rw [totalLength_cons] at ih
    omega
  | case3 start before fault h => simp

/-- Read records from the front of a file as long as there are any. -/
def scan (b : Bytes) : Scan := scanFrom b 0 []

/-- The length of a scan is that of its records. -/
theorem length_scan (b : Bytes) : (scan b).length = totalLength (scan b).records := by
  simpa [scan] using length_scanFrom b 0 []

end Record

end FlatStore
