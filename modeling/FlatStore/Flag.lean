import FlatStore.Script

/-! # Validity flags

    A flag is one field that holds `1` or `0`. It is set exactly when the
    field holds `1`.
-/

namespace FlatStore.Flag

/-- Set the flag. -/
def set (id : FileId) (name : String) (extra : Option String) : Script Unit :=
  Script.put (Key.flag id name extra).text "1"

/-- Clear the flag. -/
def clear (id : FileId) (name : String) (extra : Option String) : Script Unit :=
  Script.put (Key.flag id name extra).text "0"

/-- Whether the flag is set. -/
def check (id : FileId) (name : String) (extra : Option String) : Script Bool := do
  return (← Script.get (Key.flag id name extra).text) == some "1"

end FlatStore.Flag
