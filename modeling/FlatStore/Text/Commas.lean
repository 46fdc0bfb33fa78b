/-! # Comma lists

    Short lists are stored as their parts between commas. A part cannot hold a
    comma, and the empty text is a list of one empty part.
-/

namespace FlatStore.Text

/-- The parts of a text between commas. -/
def splitCommas (s : String) : List String :=
  (s.toList.splitOn ',').map String.ofList

/-- The parts with a comma between each two. -/
def joinCommas (parts : List String) : String :=
  String.intercalate "," parts

end FlatStore.Text
