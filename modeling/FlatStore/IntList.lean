import FlatStore.Script
import FlatStore.Text.Commas

/-! # Integer lists

    A list is one field with 32-bit integers between commas; the empty text is
    the empty list. Adding appends to the stored text unless the number is
    there already; removing takes out its first occurrence and writes the rest
    anew. What changes nothing writes nothing.
-/

namespace FlatStore.IntList

/-- The numbers of a stored text; the first item that is none is damage. -/
def parse (key raw : String) : Except Error (List Int) :=
  if raw.isEmpty then .ok []
  else
    (Text.splitCommas raw).mapM fun item =>
      match Integer.signed32 item with
      | .ok n => .ok n
      | .error fault => .error (.corruptValue key (.integer fault item))

/-- The text of a list. -/
def join (values : List Int) : String :=
  Text.joinCommas (values.map toString)

/-- The numbers of a stored text, inside a script. -/
def parsed (key raw : String) : Script (List Int) :=
  match parse key raw with
  | .ok values => return values
  | .error e => Script.throw e

/-- The list, in the order in which the numbers were added. -/
def read (id : FileId) (name : Option String) : Script (List Int) := do
  let key := (Key.list id name).text
  match ← Script.get key with
  | some raw => parsed key raw
  | none => return []

/-- Whether the number is in the list. -/
def contains (id : FileId) (name : Option String) (value : Int) : Script Bool := do
  return (← read id name).contains value

/-- Append the number; says whether it was new. -/
def add (id : FileId) (name : Option String) (value : Int) : Script Bool := do
  let key := (Key.list id name).text
  let raw := (← Script.get key).getD ""
  if (← parsed key raw).contains value then
    return false
  Script.put key (if raw.isEmpty then toString value else raw ++ "," ++ toString value)
  return true

/-- Take the number out; says whether it was there. -/
def remove (id : FileId) (name : Option String) (value : Int) : Script Bool := do
  let key := (Key.list id name).text
  match ← Script.get key with
  | none => return false
  | some raw =>
    let values ← parsed key raw
    if values.contains value then
      Script.put key (join (values.erase value))
      return true
    return false

end FlatStore.IntList
