import FlatStore.IdPool
import FlatStore.Tree.Balance

/-! # Ordered trees

    An ordered dictionary in a namespace: a height-balanced search tree whose
    nodes are fields. Nothing of it is held between operations, so opening it
    again finds it as the last completed field write left it.

    Keys are lists of texts with one order per position. Inserting a key that
    compares equal to a stored one replaces the payload and keeps the stored
    key. Deleting a node with two children moves its successor's entry into it
    and unlinks the successor.
-/

namespace FlatStore

/-- A tree: its namespace, and the orders of its key components, at least one. -/
structure Tree where
  ns : FileId
  orders : List KeyOrder
  orders_ne_nil : orders ≠ []

namespace Tree

/-- The tree in a namespace under the given orders. -/
def withOrders (ns : FileId) (orders : List KeyOrder) : Script Tree :=
  if h : orders ≠ [] then return ⟨ns, orders, h⟩ else Script.abandon .noOrders

variable (t : Tree)

/-- The number of key components. -/
def arity : Nat := t.orders.length

/-- The tree in words. -/
def describe : String :=
  "AvlTree \x7b ns: FileId(" ++ toString t.ns ++ "), arity: " ++ toString t.arity ++ " \x7d"

/-! ### Finding a place -/

/-- How a key stands to the key of a node; components are read only up to the first difference. -/
def compareFrom (ns : FileId) (id : NodeId) (i : Nat) :
    List KeyOrder → List String → Script Ordering
  | order :: orders, text :: texts => do
    match order.compareComponents text (← Node.component ns id i) with
    | .eq => compareFrom ns id (i + 1) orders texts
    | other => return other
  | _, _ => return .eq

/-- How a key stands to the key of a node. -/
def compareAt (key : List String) (id : NodeId) : Script Ordering :=
  compareFrom t.ns id 0 t.orders key

/-- Where a key belongs. -/
inductive Place where
  /-- The tree has no node. -/
  | empty
  /-- The node that holds the key. -/
  | found (id : NodeId)
  /-- The missing child of a node. -/
  | below (id : NodeId) (side : Side)

/-- The side on which a key with this comparison to a node is looked for. -/
def sideOf : Ordering → Option Side
  | .lt => some .left
  | .gt => some .right
  | .eq => none

/-- Go down from a node to the place of a key, over at most `bound` nodes. -/
def descend (key : List String) : (bound : Nat) → NodeId → Script Place
  | 0, _ => .fail .endless
  | bound + 1, id => do
    match sideOf (← t.compareAt key id) with
    | none => return .found id
    | some side =>
      match ← Node.child t.ns side id with
      | some child => descend key bound child
      | none => return .below id side

/-- The place of a key. -/
def place (key : List String) : Script Place := do
  match ← root t.ns with
  | none => return .empty
  | some id => t.descend key walkBound id

/-- The node that holds a key, if any. -/
def find (key : List String) : Script Link := do
  match ← t.place key with
  | .found id => return some id
  | _ => return none

/-- A key has to have one component for each order. -/
def checkKey (key : List String) : Script Unit :=
  if key.length = t.arity then return () else Script.abandon .keyLength

/-! ### Changing the tree -/

/-- Hang a fresh leaf under a node, count it, and rebalance. The link is written only when the leaf
is complete. -/
def insertBelow (key : List String) (data : String) (id : NodeId) (side : Side) : Script Unit := do
  let leaf ← IdPool.allocate t.ns
  Node.create t.ns leaf key data (some id)
  Node.setChild t.ns side id (some leaf)
  setSize t.ns (← Script.successor (← size t.ns))
  rebalanceFrom t.ns (some id)

/-- Make the first node. -/
def insertRoot (key : List String) (data : String) : Script Unit := do
  let leaf ← IdPool.allocate t.ns
  Node.create t.ns leaf key data none
  setRoot t.ns (some leaf)
  setSize t.ns 1

/-- Enter a key with its payload; a key that is there gets the new payload. -/
def insert (key : List String) (data : String) : Script Unit := do
  t.checkKey key
  match ← t.place key with
  | .empty => t.insertRoot key data
  | .found id => Node.setData t.ns id data
  | .below id side => t.insertBelow key data id side

/-- The last node on the way left, over at most `bound` nodes. -/
def leftmost (ns : FileId) : (bound : Nat) → NodeId → Script NodeId
  | 0, _ => .fail .endless
  | bound + 1, id => do
    match ← Node.child ns .left id with
    | some child => leftmost ns bound child
    | none => return id

/-- Take a node with at most one child out of the tree, give its id back, and rebalance. -/
def splice (ns : FileId) (id : NodeId) : Script Unit := do
  let child ← match ← Node.child ns .left id with
    | some left => pure (some left)
    | none => Node.child ns .right id
  let parent ← Node.parent ns id
  -- The one child, if there is any, moves up into the place of the node.
  if let some child := child then
    Node.setParent ns child parent
  replaceChild ns parent id child
  IdPool.free ns id
  rebalanceFrom ns parent

/-- The node to take out so that the entry of `target` is gone: its successor, after the
successor's entry was moved into it, if it has two children, and else itself. -/
def vacate (target : NodeId) : Script NodeId := do
  let left ← Node.child t.ns .left target
  let right ← Node.child t.ns .right target
  -- With two children it is the successor that goes, and the target lives on under its key.
  match left, right with
  | some _, some right =>
    let successor ← leftmost t.ns walkBound right
    Node.copyEntry t.ns successor target t.arity
    return successor
  | _, _ => return target

/-- Remove a key; says whether it was there. -/
def delete (key : List String) : Script Bool := do
  t.checkKey key
  match ← t.find key with
  | none => return false
  | some target =>
    splice t.ns (← t.vacate target)
    setSize t.ns ((← size t.ns) - 1)
    return true

/-! ### Asking the tree -/

/-- Whether the tree has no entries. -/
def isEmpty : Script Bool := do
  return (← root t.ns).isNone

/-- The height of the root; -1 for the empty tree. -/
def height : Script Int := do
  Node.height t.ns (← root t.ns)

/-- The payload of a key. -/
def get (key : List String) : Script (Option String) := do
  t.checkKey key
  match ← t.find key with
  | some id => return some (← Node.data t.ns id)
  | none => return none

/-- Whether the key is there. -/
def contains (key : List String) : Script Bool := do
  t.checkKey key
  return (← t.find key).isSome

/-- Walk through the nodes below a link, in key order from the side `near` on and over at most
`bound` levels. What `visit` finds goes in front of `found`, and the rest of the walk is `next`.
Where only some entries are `wanted`, at least one, the walk ends right behind the last of them,
and `next` is left out. -/
def collect {α : Type} (ns : FileId) (near : Side) (visit : NodeId → Script α) :
    (bound : Nat) → Link → (wanted : Option Nat) → (found : List α) →
      (next : Option Nat → List α → Script (List α)) → Script (List α)
  | _, none, wanted, found, next => next wanted found
  | 0, some _, _, _, _ => .fail .endless
  | bound + 1, some id, wanted, found, next => do
    let child ← Node.child ns near id
    collect ns near visit bound child wanted found fun wanted found => do
      let found := (← visit id) :: found
      -- With the last entry that is wanted the walk ends here and now.
      match wanted.map (· - 1) with
      | some 0 => return found.reverse
      | wanted =>
        let child ← Node.child ns near.other id
        collect ns near visit bound child wanted found next

/-- What `visit` finds at the nodes, in key order from the side `near` on; where only some entries
are `wanted`, at the first of them. -/
def traverse {α : Type} (near : Side) (wanted : Option Nat) (visit : NodeId → Script α) :
    Script (List α) := do
  collect t.ns near visit walkBound (← root t.ns) wanted [] fun _ found => return found.reverse

/-- The keys in order, their components one after the other. -/
def keys : Script (List String) := do
  return (← t.traverse .left none fun id => Node.key t.ns id t.arity).flatten

/-- The entries in order of their keys. -/
def entries : Script (List (List String × String)) :=
  t.traverse .left none fun id => do
    let key ← Node.key t.ns id t.arity
    return (key, ← Node.data t.ns id)

/-- The payloads of the `n` greatest keys, greatest first. -/
def top (n : Nat) : Script (List String) :=
  if n = 0 then return [] else t.traverse .right (some n) (Node.data t.ns)

end Tree

end FlatStore
