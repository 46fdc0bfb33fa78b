import FlatStore.Bytes

/-! # Checksum

    The 32-bit cyclic redundancy check in its reflected form: polynomial
    `0xEDB88320`, register preset to ones, result complemented. A byte is
    taken in by adding it to the low end of the register and shifting eight
    times.

    * **Continuation**: taking in `a ++ b` is taking in `a` and then `b`, so a
      checksum over several pieces needs no copy of them.
-/

namespace FlatStore.Checksum

/-- The generator polynomial, lowest power in the highest bit. -/
def polynomial : UInt32 := 0xEDB88320

/-- One shift of the register; the polynomial is subtracted when a one falls out. -/
def shift (register : UInt32) : UInt32 :=
  if register &&& 1 = 1 then (register >>> 1) ^^^ polynomial else register >>> 1

/-- `n` shifts of the register. -/
def shifts : Nat → UInt32 → UInt32
  | 0, register => register
  | n + 1, register => shifts n (shift register)

/-- Take in one byte. -/
def step (register : UInt32) (byte : UInt8) : UInt32 :=
  shifts 8 (register ^^^ byte.toUInt32)

/-- Take in the bytes from position `i` on. -/
def takeFrom (b : Bytes) (i : Nat) (register : UInt32) : UInt32 :=
  if h : i < b.size then takeFrom b (i + 1) (step register b[i]) else register
termination_by b.size - i

/-- Take in a string of bytes. -/
def take (b : Bytes) (register : UInt32) : UInt32 :=
  takeFrom b 0 register

/-- The checksum of two pieces in a row. -/
def ofPieces (a b : Bytes) : UInt32 :=
  ~~~ take b (take a 0xFFFFFFFF)

theorem takeFrom_eq_foldl (b : Bytes) (i : Nat) (register : UInt32) :
    takeFrom b i register = (b.data.toList.drop i).foldl step register := by
  fun_induction takeFrom b i register with
  | case1 i register h ih =>
    have hi : i < b.data.toList.length := by simpa using h
    rw [ih, List.drop_eq_getElem_cons hi, List.foldl_cons]
    rfl
  | case2 i register h =>
    rw [List.drop_eq_nil_of_le (by simpa using h)]
    rfl

/-- Taking in bytes is one step for each byte, first to last. -/
theorem take_eq_foldl (b : Bytes) (register : UInt32) :
    take b register = b.data.toList.foldl step register := by
  simp [take, takeFrom_eq_foldl]

/-- Pieces in a row are taken in as one string. -/
theorem take_append (a b : Bytes) (register : UInt32) :
    take (a ++ b) register = take b (take a register) := by
  simp [take_eq_foldl]

end FlatStore.Checksum
