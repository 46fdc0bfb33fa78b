import FlatStore.Script

/-! # Counters

    A counter is one field with a signed number of 64 bits, zero until it is
    set. Counting past either end of the range stays at that end.
-/

namespace FlatStore.Counter

/-- The nearest number that fits into 64 bits. -/
def saturate (n : Int) : Int :=
  max (-(Word.half64 : Int)) (min n (Word.half64 - 1))

/-- The value of the counter. -/
def read (id : FileId) (extra : Option String) : Script Int := do
  return (← Script.getParsed Integer.signed64 (Key.counter id extra).text).getD 0

/-- Set the counter. -/
def write (id : FileId) (extra : Option String) (value : Int) : Script Unit :=
  Script.put (Key.counter id extra).text (toString value)

/-- Count by `delta`; gives the new value. -/
def add (id : FileId) (extra : Option String) (delta : Int) : Script Int := do
  let value := saturate ((← read id extra) + delta)
  write id extra value
  return value

/-- Count up by one. -/
def increment (id : FileId) (extra : Option String) : Script Int := add id extra 1

/-- Count down by one. -/
def decrement (id : FileId) (extra : Option String) : Script Int := add id extra (-1)

end FlatStore.Counter
