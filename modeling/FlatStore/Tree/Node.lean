import FlatStore.Link
import FlatStore.Script

/-! # Tree nodes

    A node is never held as a whole: each of its fields is stored, read and
    written on its own. Every field of a node has to be there; the root link
    and the size of a tree may be absent, which means an empty tree.
-/

namespace FlatStore

/-- The field of a side's child link. -/
def Side.field : Side → NodeField
  | .left => .left
  | .right => .right

namespace Node

variable (ns : FileId)

/-! ### Reading and writing one field -/

/-- The text of a node field. -/
def read (id : NodeId) (field : NodeField) : Script String := do
  let key := (Key.node ns id field).text
  match ← Script.get key with
  | some raw => return raw
  | none => Script.throw (.corruptValue key .missingNodeField)

/-- The number in a node field. -/
def readNumber (id : NodeId) (field : NodeField) : Script Int := do
  let key := (Key.node ns id field).text
  match ← Script.getParsed Integer.signed32 key with
  | some n => return n
  | none => Script.throw (.corruptValue key .missingNodeField)

/-- The link in a node field. -/
def readLink (id : NodeId) (field : NodeField) : Script Link := do
  let raw ← read ns id field
  match Link.parse? raw with
  | some link => return link
  | none => Script.throw (.corruptValue (Key.node ns id field).text (.link raw))

/-- Write a node field. -/
def write (id : NodeId) (field : NodeField) (value : String) : Script Unit :=
  Script.put (Key.node ns id field).text value

/-- Write a link into a node field. -/
def writeLink (id : NodeId) (field : NodeField) (link : Link) : Script Unit :=
  write ns id field link.text

/-! ### Fields by name -/

/-- The height below a link: -1 below no node. -/
def height : Link → Script Int
  | some id => readNumber ns id .height
  | none => return -1

/-- The stored balance factor. -/
def balance (id : NodeId) : Script Int := readNumber ns id .balance

/-- The link to the child on a side. -/
def child (side : Side) (id : NodeId) : Script Link := readLink ns id side.field

/-- Set the link to the child on a side. -/
def setChild (side : Side) (id : NodeId) (link : Link) : Script Unit :=
  writeLink ns id side.field link

/-- The link to the parent. -/
def parent (id : NodeId) : Script Link := readLink ns id .parent

/-- Set the link to the parent. -/
def setParent (id : NodeId) (link : Link) : Script Unit := writeLink ns id .parent link

/-- The payload. -/
def data (id : NodeId) : Script String := read ns id .data

/-- Set the payload. -/
def setData (id : NodeId) (value : String) : Script Unit := write ns id .data value

/-- One component of the key. -/
def component (id : NodeId) (i : Nat) : Script String := read ns id (.component i)

/-- The whole key of a node with the given number of components. -/
def key (id : NodeId) (arity : Nat) : Script (List String) :=
  (List.range arity).mapM (component ns id)

/-! ### Whole nodes -/

/-- Write key components from position `i` on. -/
def writeComponents (id : NodeId) (i : Nat) : List String → Script Unit
  | [] => return ()
  | text :: rest => do
    write ns id (.component i) text
    writeComponents id (i + 1) rest

/-- Write all fields of a fresh leaf. -/
def create (id : NodeId) (key : List String) (value : String) (parent : Link) : Script Unit := do
  write ns id .height "0"
  write ns id .balance "0"
  setData ns id value
  setChild ns .left id none
  setChild ns .right id none
  setParent ns id parent
  writeComponents ns id 0 key

/-- Copy the key and the payload of one node onto another. -/
def copyEntry (source target : NodeId) (arity : Nat) : Script Unit := do
  (List.range arity).forM fun i => do
    write ns target (.component i) (← component ns source i)
  setData ns target (← data ns source)

end Node

namespace Tree

/-- The link to the root node of the tree in a namespace. -/
def root (ns : FileId) : Script Link := do
  let key := (Key.root ns).text
  match ← Script.get key with
  | none => return none
  | some raw =>
    match Link.parse? raw with
    | some link => return link
    | none => Script.throw (.corruptValue key (.link raw))

/-- Set the link to the root node. -/
def setRoot (ns : FileId) (link : Link) : Script Unit :=
  Script.put (Key.root ns).text link.text

/-- The stored number of entries. -/
def size (ns : FileId) : Script Nat := do
  return (← Script.getParsed Integer.unsigned64 (Key.size ns).text).getD 0

/-- Set the stored number of entries. -/
def setSize (ns : FileId) (size : Nat) : Script Unit :=
  Script.put (Key.size ns).text (toString size)

end Tree

end FlatStore
