/-! # Printed results

    What a command prints on success.
-/

namespace FlatStore

/-- The result of a command. -/
inductive Output where
  | ok
  | nil
  | text (value : String)
  | integer (value : Int)
  | bool (value : Bool)
  | list (items : List String)
  deriving DecidableEq, Repr

namespace Output

/-- One line for each item, numbered from `n` on. -/
def numbered (n : Nat) : List String → List String
  | [] => []
  | item :: rest => (toString n ++ ") " ++ item) :: numbered (n + 1) rest

/-- The result in print. Texts are not escaped. -/
def render : Output → String
  | .ok => "OK"
  | .nil => "(nil)"
  | .text value => "\"" ++ value ++ "\""
  | .integer value => "(integer) " ++ toString value
  | .bool true => "(true)"
  | .bool false => "(false)"
  | .list [] => "(empty list)"
  | .list items => String.intercalate "\n" (numbered 1 items)

end Output

end FlatStore
