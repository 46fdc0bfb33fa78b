import FlatStore.Counter
import FlatStore.Entry
import FlatStore.Flag
import FlatStore.IntList
import FlatStore.Output
import FlatStore.Tree.Recorded

/-! # Requests

    A request is one command on the stored structures, and its script gives
    what the command prints. A tree is used under the orders that the request
    names, or else those recorded for it, or else `lex` for each component;
    only inserting records orders for a tree that has none.
-/

namespace FlatStore

/-- A command on the stored structures. -/
inductive Request where
  | mapGet (key : String)
  | mapSet (key value : String)
  | counterGet (id : FileId) (extra : Option String)
  | counterSet (id : FileId) (extra : Option String) (value : Int)
  | counterIncrement (id : FileId) (extra : Option String)
  | counterDecrement (id : FileId) (extra : Option String)
  | flagSet (id : FileId) (key : String) (extra : Option String)
  | flagClear (id : FileId) (key : String) (extra : Option String)
  | flagCheck (id : FileId) (key : String) (extra : Option String)
  | listAdd (id : FileId) (key : Option String) (value : Int)
  | listRemove (id : FileId) (key : Option String) (value : Int)
  | listContains (id : FileId) (key : Option String) (value : Int)
  | listShow (id : FileId) (key : Option String)
  | treeInsert (ns : FileId) (orders : Option (List KeyOrder)) (key : List String) (data : String)
  | treeDelete (ns : FileId) (orders : Option (List KeyOrder)) (key : List String)
  | treeGet (ns : FileId) (orders : Option (List KeyOrder)) (key : List String)
  | treeList (ns : FileId) (orders : Option (List KeyOrder))
  | treeTop (ns : FileId) (n : Nat)
  | treeSize (ns : FileId)
  deriving DecidableEq, Repr

/-- A command: a request, or compacting the log. -/
inductive Action where
  | request (request : Request)
  | compact
  deriving DecidableEq, Repr

/-- A number of 64 bits as it is printed with a sign. -/
def signed (n : Nat) : Int :=
  if n < Word.half64 then n else n - Word.size64

namespace Tree

/-- The tree of a namespace for a command whose key has `arity` components, zero if it has no key.
With `record`, a tree without recorded orders gets those it is opened under. -/
def openFor (ns : FileId) (requested : Option (List KeyOrder)) (arity : Nat) (record : Bool) :
    Script Tree := do
  let recorded ← recordedOrders ns
  let orders := (requested.or recorded).getD (List.replicate (max arity 1) .lex)
  if arity > 0 ∧ orders.length ≠ arity then
    Script.throw (.orderMismatch (.keyLength ns orders.length arity))
  else if record || recorded.isSome then openRecorded ns orders
  else withOrders ns orders

end Tree

namespace Request

/-- A text if there is one. -/
def ofText? : Option String → Output
  | some text => .text text
  | none => .nil

/-- An entry of a tree on one line. -/
def entryLine (entry : List String × String) : String :=
  String.intercalate " " entry.1 ++ " => " ++ entry.2

/-- What the request does and prints. -/
def script : Request → Script Output
  | .mapGet key => ofText? <$> Entry.read key
  | .mapSet key value => do
    Entry.write key value
    return .ok
  | .counterGet id extra => .integer <$> Counter.read id extra
  | .counterSet id extra value => do
    Counter.write id extra value
    return .ok
  | .counterIncrement id extra => .integer <$> Counter.increment id extra
  | .counterDecrement id extra => .integer <$> Counter.decrement id extra
  | .flagSet id key extra => do
    Flag.set id key extra
    return .ok
  | .flagClear id key extra => do
    Flag.clear id key extra
    return .ok
  | .flagCheck id key extra => .bool <$> Flag.check id key extra
  | .listAdd id key value => .bool <$> IntList.add id key value
  | .listRemove id key value => .bool <$> IntList.remove id key value
  | .listContains id key value => .bool <$> IntList.contains id key value
  | .listShow id key => do return .list ((← IntList.read id key).map toString)
  | .treeInsert ns orders key data => do
    (← Tree.openFor ns orders key.length true).insert key data
    return .ok
  | .treeDelete ns orders key => do
    return .bool (← (← Tree.openFor ns orders key.length false).delete key)
  | .treeGet ns orders key => do
    return ofText? (← (← Tree.openFor ns orders key.length false).get key)
  | .treeList ns orders => do
    return .list ((← (← Tree.openFor ns orders 0 false).entries).map entryLine)
  | .treeTop ns n => do
    return .list (← (← Tree.openFor ns none 0 false).top n)
  | .treeSize ns => do
    let t ← Tree.openFor ns none 0 false
    return .integer (signed (← Tree.size t.ns))

end Request

end FlatStore
