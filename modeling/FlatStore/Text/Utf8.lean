import FlatStore.Bytes

/-! # Text in bytes

    Field values are UTF-8. Bytes that are not name the place of the first
    sequence that is wrong: how many of its bytes were right, or that the
    bytes end inside it.

    * **Round trip**: the bytes of a text decode to that text.
-/

namespace FlatStore.Utf8

/-- What is wrong with the first bad sequence, and where it starts. -/
inductive Fault where
  /-- The first `length` bytes of the sequence cannot begin any character. -/
  | invalid (start length : Nat)
  /-- The bytes end before the sequence does. -/
  | incomplete (start : Nat)
  deriving DecidableEq, Repr

/-- The wording of a fault. -/
def Fault.message : Fault → String
  | .invalid start length =>
    "invalid utf-8 sequence of " ++ toString length ++ " bytes from index " ++ toString start
  | .incomplete start => "incomplete utf-8 byte sequence from index " ++ toString start

/-- What the bytes from some position on begin with. -/
inductive Sequence where
  /-- A whole character of that many bytes. -/
  | whole (length : Nat)
  /-- The first `length` bytes are wrong. -/
  | wrong (length : Nat)
  /-- Right so far, but the bytes end. -/
  | cut

/-- Bytes after the first that must be plain continuation bytes; `right` are right so far. -/
def continuation (right : Nat) : Nat → List UInt8 → Sequence
  | 0, _ => .whole right
  | _ + 1, [] => .cut
  | n + 1, b :: rest =>
    if 0x80 ≤ b ∧ b ≤ 0xbf then continuation (right + 1) n rest else .wrong right

/-- A sequence whose second byte lies in a range and which has `n` more after it. -/
def tail (low high : UInt8) (n : Nat) : List UInt8 → Sequence
  | [] => .cut
  | b :: rest => if low ≤ b ∧ b ≤ high then continuation 2 n rest else .wrong 1

/-- The sequence that starts with the byte `first`. No character has two forms, is a surrogate
or lies above U+10FFFF, which narrows the range of some second bytes. -/
def sequence (first : UInt8) (rest : List UInt8) : Sequence :=
  if first < 0x80 then .whole 1
  -- Continuation bytes begin nothing, and 0xc0 and 0xc1 only second forms of ASCII characters.
  else if first < 0xc2 then .wrong 1
  else if first < 0xe0 then tail 0x80 0xbf 0 rest
  -- Behind 0xe0 second forms are kept out, and behind 0xed the surrogates.
  else if first = 0xe0 then tail 0xa0 0xbf 1 rest
  else if first = 0xed then tail 0x80 0x9f 1 rest
  else if first < 0xf0 then tail 0x80 0xbf 1 rest
  -- Behind 0xf0 second forms are kept out, and behind 0xf4 what lies above U+10FFFF.
  else if first = 0xf0 then tail 0x90 0xbf 2 rest
  else if first < 0xf4 then tail 0x80 0xbf 2 rest
  else if first = 0xf4 then tail 0x80 0x8f 2 rest
  else .wrong 1

/-- The first fault of bytes that are not UTF-8, read from position `start`. -/
def firstFault (start : Nat) : List UInt8 → Fault
  | [] => .incomplete start
  | first :: rest =>
    match sequence first rest with
    | .whole length => firstFault (start + length) (rest.drop (length - 1))
    | .wrong length => .invalid start length
    | .cut => .incomplete start
termination_by bytes => bytes.length
decreasing_by simp only [List.length_drop, List.length_cons]; omega

/-- The text that the bytes spell. -/
def decode (b : Bytes) : Except Fault String :=
  match String.fromUTF8? b with
  | some text => .ok text
  | none => .error (firstFault 0 b.data.toList)

/-- The bytes of a text decode to that text. -/
@[simp]
theorem decode_toUTF8 (s : String) : decode s.toUTF8 = .ok s := by
  have h : String.fromUTF8? s.toUTF8 = some s := by
    rw [String.fromUTF8?, dif_pos (show s.toUTF8.IsValidUTF8 from s.isValidUTF8)]
    rfl
  rw [decode, h]

end FlatStore.Utf8
