import FlatStore.Store.Memory
import FlatStore.Tree.Node

/-! # The stored shape of a tree

    A listing of a tree as it lies in a store, without judging it: the nodes
    that the links lead to from the root on, each before its left and then its
    right subtree, with the stored texts of their links and numbers. It works
    on damaged trees too: a node that was listed is not listed again, and a
    link that leads nowhere gives a row without texts.
-/

namespace FlatStore.Tree

/-- The stored texts of one node, under the text of the link that led to it. -/
structure ShapeRow where
  id : String
  left : Option Bytes
  right : Option Bytes
  parent : Option Bytes
  height : Option Bytes
  balance : Option Bytes

/-- The stored text of a node field, found by the text of the node's id. -/
def storedField (m : Memory) (ns : FileId) (id : String) (field : NodeField) : Option Bytes :=
  let key := toString ns ++ "," ++ id ++ "," ++ toString field.index
  m.get? key.toUTF8

/-- The texts of one node. -/
def shapeRow (m : Memory) (ns : FileId) (id : String) : ShapeRow :=
  let stored := storedField m ns id
  { id
    left := stored .left
    right := stored .right
    parent := stored .parent
    height := stored .height
    balance := stored .balance }

/-- The id text in a stored link, unless it leads nowhere. -/
def linkedId? (stored : Option Bytes) : Option String := do
  let text ← (Utf8.decode (← stored)).toOption
  if text = "N" then none else some text

/-- The rows for the links still to follow, over at most `bound` links. -/
def shapeFrom (m : Memory) (ns : FileId) :
    (bound : Nat) → (seen : List String) → (links : List (Option Bytes)) → List ShapeRow
  | 0, _, _ => []
  | _, _, [] => []
  | bound + 1, seen, link :: links =>
    match linkedId? link with
    | none => shapeFrom m ns bound seen links
    | some id =>
      if seen.contains id then shapeFrom m ns bound seen links
      else
        let row := shapeRow m ns id
        row :: shapeFrom m ns bound (id :: seen) (row.left :: row.right :: links)

/-- The rows of a tree. Each row but the one-off rows of dead links takes up fields of the store, so
their number bounds the links. -/
def shape (m : Memory) (ns : FileId) : List ShapeRow :=
  shapeFrom m ns (4 * m.size + 4) [] [m.get? (Key.root ns).text.toUTF8]

end FlatStore.Tree
