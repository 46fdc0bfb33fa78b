import FlatStore.Word

/-! # Field keys

    Every structure is a set of text fields, each under a key of its own. A
    key is written as a tag or a namespace number, followed by its parts
    between commas.

    * **Named entries** carry a tag: map entries, counters, flags, lists.
    * **Namespaces** hold a tree: its nodes field by field, its root, its size,
      the orders it was created with, and the pool its node ids come from.
-/

namespace FlatStore

/-- The number of a namespace, or of a counter, flag or list. -/
abbrev FileId := Nat

/-- The number of a node inside its namespace. -/
abbrev NodeId := Nat

/-- A field of a tree node. -/
inductive NodeField where
  | height
  | balance
  | data
  | left
  | right
  | parent
  /-- One component of the node's key. -/
  | component (i : Nat)
  deriving DecidableEq, Repr

/-- The number that stands for the field in its key. -/
def NodeField.index : NodeField → Nat
  | .height => 0
  | .balance => 1
  | .data => 2
  | .left => 3
  | .right => 4
  | .parent => 5
  | .component i => 6 + i

/-- What a field is, before it is written as text. -/
inductive Key where
  | map (name : String)
  | counter (id : FileId) (extra : Option String)
  | flag (id : FileId) (name : String) (extra : Option String)
  | list (id : FileId) (name : Option String)
  | node (ns : FileId) (id : NodeId) (field : NodeField)
  | root (ns : FileId)
  | size (ns : FileId)
  | orders (ns : FileId)
  /-- The largest id that the pool of the namespace ever issued. -/
  | highWater (ns : FileId)
  /-- How many ids lie on the free stack of the namespace. -/
  | freeCount (ns : FileId)
  /-- One place of the free stack, counted from the bottom. -/
  | freeSlot (ns : FileId) (slot : Nat)
  deriving DecidableEq, Repr

namespace Key

/-- A part that may be absent, with the comma that leads to it. -/
def optional : Option String → String
  | some text => "," ++ text
  | none => ""

/-- The text that the field is stored under. -/
def text : Key → String
  | .map name => "map-" ++ name
  | .counter id extra => "counter-" ++ toString id ++ optional extra
  | .flag id name extra => "validator-" ++ toString id ++ "," ++ name ++ optional extra
  | .list id name => "list-" ++ toString id ++ optional name
  | .node ns id field => toString ns ++ "," ++ toString id ++ "," ++ toString field.index
  | .root ns => toString ns ++ ",root_index"
  | .size ns => toString ns ++ ",size"
  | .orders ns => toString ns ++ ",orders"
  | .highWater ns => toString ns ++ ",allocator,next"
  | .freeCount ns => toString ns ++ ",allocator,free_count"
  | .freeSlot ns slot => toString ns ++ ",allocator,free," ++ toString slot

/-- Whether the number of a node field fits into 64 bits; others have no key. -/
def fits : Key → Bool
  | .node _ _ field => field.index < Word.size64
  | _ => true

end Key

end FlatStore
