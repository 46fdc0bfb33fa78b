/-! # Paths

    A place on a disk is the list of names that lead to it from the top
    directory. A path as it is written may start at the top or at the working
    directory, and may hold empty names, `.` and `..`.

    A written path is kept as it stands, because its wording counts: too long
    a one names nothing, and one whose last name is `.` names a directory only
    if that is there already.
-/

namespace FlatStore

/-- The names that lead from the top directory to a file or directory. -/
abbrev Path := List String

/-- One step of a written path. -/
inductive PathStep where
  /-- Back to the directory above. -/
  | up
  | down (name : String)
  deriving DecidableEq, Repr

/-- The name of a step. -/
def PathStep.name : PathStep → String
  | .up => ".."
  | .down name => name

/-- A path as it is written. -/
structure WrittenPath where
  text : String
  deriving DecidableEq, Repr

namespace WrittenPath

/-- Whether the path starts at the top instead of the working directory. -/
def isAbsolute (p : WrittenPath) : Bool := p.text.toList.head? == some '/'

/-- The names between the slashes, empty ones too. -/
def pieces (p : WrittenPath) : List String :=
  (p.text.toList.splitOn '/').map String.ofList

/-- Whether a name leads nowhere: an empty one and `.` stay where they are. -/
def isIdle (name : String) : Bool := name == "" || name == "."

/-- The step that a name stands for. -/
def step? (name : String) : Option PathStep :=
  if isIdle name then none
  else if name = ".." then some .up
  else some (.down name)

/-- The steps of the path. -/
def steps (p : WrittenPath) : List PathStep := p.pieces.filterMap step?

/-- Whether the last name is `.`, so that the path stays where the names before it lead. -/
def staysPut (p : WrittenPath) : Bool :=
  (p.pieces.filter (· ≠ "")).getLast? = some "."

/-- The path to a name in the directory of the path. -/
def join (p : WrittenPath) (name : String) : WrittenPath :=
  if p.text.toList.getLast?.all (· == '/') then ⟨p.text ++ name⟩ else ⟨p.text ++ "/" ++ name⟩

/-- The path without slashes and `.` at its end, but for those that it starts with. -/
def trimmed (p : WrittenPath) : WrittenPath :=
  let kept := ((p.pieces.drop 1).reverse.dropWhile isIdle).reverse
  if p.isAbsolute ∧ kept = [] then ⟨"/"⟩
  else ⟨String.intercalate "/" (p.pieces.take 1 ++ kept)⟩

/-- The places that steps lead to from a directory, one after the other. -/
def placesFrom (place : Path) : List PathStep → List Path
  | [] => [place]
  | .up :: steps => place :: placesFrom place.dropLast steps
  | .down name :: steps => place :: placesFrom (place ++ [name]) steps

/-- The places on the way of the path, when it starts in the directory. -/
def places (p : WrittenPath) (start : Path) : List Path := placesFrom start p.steps

end WrittenPath

end FlatStore
