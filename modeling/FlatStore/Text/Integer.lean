import FlatStore.Word

/-! # Reading integers

    Numbers are stored as decimal text. A reader accepts one optional sign and
    then ASCII digits only, leading zeros included, and names the first thing
    wrong from the left: a character that is no digit, or the digit that takes
    the number out of range.
-/

namespace FlatStore.Integer

/-- Why a text is not an integer of the wanted range. -/
inductive Fault where
  | empty
  | invalidDigit
  | tooLarge
  | tooSmall
  deriving DecidableEq, Repr

/-- The wording of a fault. -/
def Fault.message : Fault → String
  | .empty => "cannot parse integer from empty string"
  | .invalidDigit => "invalid digit found in string"
  | .tooLarge => "number too large to fit in target type"
  | .tooSmall => "number too small to fit in target type"

/-- The value of an ASCII digit. -/
def digit? (c : Char) : Option Nat :=
  if '0' ≤ c ∧ c ≤ '9' then some (c.toNat - '0'.toNat) else none

/-- Digits read behind the number `n`; `beyond` when the result would exceed `limit`. -/
def digitsFrom (limit : Nat) (beyond : Fault) (n : Nat) : List Char → Except Fault Nat
  | [] => .ok n
  | c :: rest =>
    match digit? c with
    | none => .error .invalidDigit
    | some d =>
      if 10 * n + d ≤ limit then digitsFrom limit beyond (10 * n + d) rest else .error beyond

/-- A run of digits, at least one. -/
def digits (limit : Nat) (beyond : Fault) : List Char → Except Fault Nat
  | [] => .error .invalidDigit
  | c :: rest => digitsFrom limit beyond 0 (c :: rest)

/-- A natural number below `bound`; a minus sign is no digit. -/
def natBelow (bound : Nat) (s : String) : Except Fault Nat :=
  match s.toList with
  | [] => .error .empty
  | '+' :: rest => digits (bound - 1) .tooLarge rest
  | rest => digits (bound - 1) .tooLarge rest

/-- An integer from `-bound` to `bound - 1`. -/
def intWithin (bound : Nat) (s : String) : Except Fault Int :=
  match s.toList with
  | [] => .error .empty
  | '-' :: rest => (digits bound .tooSmall rest).map fun n => -(n : Int)
  | '+' :: rest => (digits (bound - 1) .tooLarge rest).map Int.ofNat
  | rest => (digits (bound - 1) .tooLarge rest).map Int.ofNat

/-- An unsigned number of 64 bits. -/
def unsigned64 : String → Except Fault Nat := natBelow Word.size64

/-- A signed number of 64 bits. -/
def signed64 : String → Except Fault Int := intWithin Word.half64

/-- A signed number of 32 bits. -/
def signed32 : String → Except Fault Int := intWithin Word.half32

end FlatStore.Integer
