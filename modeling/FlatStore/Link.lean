import FlatStore.Key
import FlatStore.Text.Integer

/-! # Links

    A link leads to a node or nowhere. It is stored as the node's number, or
    as `N`.
-/

namespace FlatStore

/-- A link to a node, or to none. -/
abbrev Link := Option NodeId

namespace Link

/-- The stored text of a link. -/
def text : Link → String
  | some id => toString id
  | none => "N"

/-- The link that a text stands for, if it is one. -/
def parse? (raw : String) : Option Link :=
  if raw = "N" then some none
  else
    match Integer.unsigned64 raw with
    | .ok id => some (some id)
    | .error _ => none

end Link

end FlatStore
