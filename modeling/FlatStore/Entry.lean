import FlatStore.Script

/-! # Map entries

    A map entry is one field: a text under a name.
-/

namespace FlatStore.Entry

/-- The text of the entry, if it was ever written. -/
def read (name : String) : Script (Option String) :=
  Script.get (Key.map name).text

/-- Write the entry. -/
def write (name value : String) : Script Unit :=
  Script.put (Key.map name).text value

end FlatStore.Entry
