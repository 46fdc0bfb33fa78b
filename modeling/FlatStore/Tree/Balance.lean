import FlatStore.Tree.Node

/-! # Rebalancing

    Every node stores its height and its balance factor, the height on its
    right minus the height on its left. After a node was linked or unlinked,
    the way up to the root is walked: each node's two numbers are recomputed
    from its children, and a node that leans by two is rotated, once or twice,
    before the walk goes on above the rotated subtree.

    * `rotate` turns the edge to one child around; the two directions are one
      definition, told apart by the side of the child that comes up.
-/

namespace FlatStore.Tree

variable (ns : FileId)

/-- A bound on walks along links: there are no more ids than that, so a longer walk has met some
node twice and would never end. -/
def walkBound : Nat := Word.size64

/-- A height or balance factor, which has to fit into 32 bits. -/
def fitting (n : Int) : Script Int :=
  if -(Word.half32 : Int) ≤ n ∧ n < Word.half32 then return n else Script.abandon .overflow

/-- Recompute the height and the balance factor of a node from its children, and write those that
changed. Gives the balance factor. -/
def update (id : NodeId) : Script Int := do
  let left ← Node.height ns (← Node.child ns .left id)
  let right ← Node.height ns (← Node.child ns .right id)
  let height ← fitting (1 + max left right)
  let balance ← fitting (right - left)
  -- A number that stays as it is costs no write.
  if (← Node.height ns (some id)) ≠ height then
    Node.write ns id .height (toString height)
  if (← Node.balance ns id) ≠ balance then
    Node.write ns id .balance (toString balance)
  return balance

/-- Put `new` where `parent` links to `old`; without a parent that is the root link. -/
def replaceChild (parent : Link) (old : NodeId) (new : Link) : Script Unit := do
  match parent with
  | none => setRoot ns new
  | some parent =>
    if (← Node.child ns .left parent) = some old then
      Node.setChild ns .left parent new
    else
      Node.setChild ns .right parent new

/-- The child on a side where there must be one. -/
def requiredChild (side : Side) (id : NodeId) : Script NodeId := do
  match ← Node.child ns side id with
  | some child => return child
  | none => Script.throw (.corruption (.childless ns id side))

/-- Turn the edge from a node to its child on the side `up` around: the child takes the node's
place, the node becomes its child on the other side and takes over the subtree there. Gives the
child. -/
def rotate (up : Side) (id : NodeId) : Script NodeId := do
  let pivot ← requiredChild ns up id
  let inner ← Node.child ns up.other pivot
  let parent ← Node.parent ns id
  -- The subtree between the two changes over to the node that goes down.
  Node.setChild ns up id inner
  if let some inner := inner then
    Node.setParent ns inner (some id)
  -- The child takes the place of the node.
  Node.setChild ns up.other pivot (some id)
  Node.setParent ns id (some pivot)
  Node.setParent ns pivot parent
  replaceChild ns parent id (some pivot)
  -- The lower node comes first, because the numbers of the upper one follow from its height.
  let _ ← update ns id
  let _ ← update ns pivot
  return pivot

/-- Bring down a node that leans by two to the side `heavy`. When the grandchild in the middle is
the higher one, it is brought up first. -/
def lighten (heavy : Side) (id : NodeId) : Script NodeId := do
  let child ← requiredChild ns heavy id
  let outer ← Node.height ns (← Node.child ns heavy child)
  let inner ← Node.height ns (← Node.child ns heavy.other child)
  if outer < inner then
    let _ ← rotate ns heavy.other child
  rotate ns heavy id

/-- Update one node and rotate if it leans by two. Gives the root of the subtree after that. -/
def rebalanceNode (id : NodeId) : Script NodeId := do
  let balance ← update ns id
  if balance = -2 then lighten ns .left id
  else if balance = 2 then lighten ns .right id
  else return id

/-- Rebalance from a node up to the root, over at most `bound` nodes. -/
def climb : (bound : Nat) → Link → Script Unit
  | _, none => return ()
  | 0, some _ => .fail .endless
  | bound + 1, some id => do
    let top ← rebalanceNode ns id
    -- After a rotation another node is on top here, and the walk goes on above that one.
    climb bound (← Node.parent ns top)

/-- Rebalance from a node up to the root. -/
def rebalanceFrom (start : Link) : Script Unit :=
  climb ns walkBound start

end FlatStore.Tree
