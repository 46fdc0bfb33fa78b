import FlatStore.Toml.Value

/-! # Settings documents: tables under construction

    A document names the same table in several ways: by a header, by a dotted
    key, or on the way to another table. How a table came about decides what
    may still be added to it:

    * a table that only lies on the way to another is **implicit**; a header
      may still name it, once;
    * a table made by a **dotted** key grows by dotted keys only;
    * a table that a header named is **explicit**; dotted keys elsewhere do not
      reach into it;
    * a value is finished, also an inline table or an array.

    No key is ever given twice.
-/

namespace FlatStore.Toml

/-- How a table came about. -/
inductive TableKind where
  | implicit
  | dotted
  | explicit
  deriving DecidableEq

/-- What a key holds while the document is read. -/
inductive Item where
  | value (v : Value)
  | table (kind : TableKind) (entries : List (String × Item))
  /-- The tables of one array of tables, the last one first. -/
  | tables (elements : List (List (String × Item)))

/-- The keys of a table with what they hold, in the order in which they came. -/
abbrev Entries := List (String × Item)

namespace Entries

/-- The entries with another item under a key, in the place of the old one if there is one. -/
def put (entries : Entries) (key : String) (item : Item) : Entries :=
  match entries with
  | [] => [(key, item)]
  | (k, old) :: rest => if k = key then (key, item) :: rest else (k, old) :: put rest key item

/-- Change the last table of an array of tables, which comes first. -/
def onLast (f : Entries → Option Entries) : List Entries → Option (List Entries)
  | [] => none
  | last :: earlier => do return (← f last) :: earlier

/-- Give a key a value; `path` is a dotted key without its last name. -/
def insertPair (entries : Entries) (key : String) (v : Value) : List String → Option Entries
  | [] =>
    match entries.lookup key with
    | some _ => none
    | none => some (entries ++ [(key, .value v)])
  | name :: path =>
    match entries.lookup name with
    | none => do return entries.put name (.table .dotted (← insertPair [] key v path))
    -- A table that a header named is closed to dotted keys from elsewhere.
    | some (.table .explicit _) => none
    | some (.table inner es) =>
      if path = [] ∧ inner ≠ .dotted then none
      else do return entries.put name (.table inner (← insertPair es key v path))
    | some (.tables elements) =>
      if path = [] then none
      else do
        return entries.put name
          (.tables (← onLast (fun es => insertPair es key v path) elements))
    | some (.value _) => none

/-- Change the table that a header's path leads to; tables on the way come about as implicit. -/
def descend (f : Entries → Option Entries) (entries : Entries) : List String → Option Entries
  | [] => f entries
  | name :: path =>
    match entries.lookup name with
    | none => do return entries.put name (.table .implicit (← descend f [] path))
    | some (.table kind es) => do return entries.put name (.table kind (← descend f es path))
    | some (.tables elements) => do
      return entries.put name (.tables (← onLast (fun es => descend f es path) elements))
    | some (.value _) => none

/-- The key and value pairs under one header; a pair has the path and the last name of its key. -/
abbrev Pairs := List (List String × String × Value)

/-- Add pairs to a table. -/
def insertPairs (entries : Entries) (pairs : Pairs) : Option Entries :=
  pairs.foldlM (fun es (path, key, v) => insertPair es key v path) entries

/-- Add the table of a header `[… name]` with its pairs. -/
def addTable (pairs : Pairs) (name : String) (entries : Entries) : Option Entries :=
  match entries.lookup name with
  | none => do return entries.put name (.table .explicit (← insertPairs [] pairs))
  | some (.table .implicit es) => do
    return entries.put name (.table .explicit (← insertPairs es pairs))
  | some _ => none

/-- Add one more table of a header `[[… name]]` with its pairs. -/
def addElement (pairs : Pairs) (name : String) (entries : Entries) : Option Entries :=
  match entries.lookup name with
  | none => do return entries.put name (.tables [← insertPairs [] pairs])
  | some (.tables elements) => do
    return entries.put name (.tables ((← insertPairs [] pairs) :: elements))
  | some _ => none

end Entries

/-! ### Finished documents -/

mutual

/-- The value that a key ends up with. -/
def Item.toValue : Item → Value
  | .value v => v
  | .table _ entries => .table (entryValues entries)
  | .tables elements => .array (elementValues elements).reverse

/-- The values of all keys. -/
def entryValues : List (String × Item) → List (String × Value)
  | [] => []
  | (key, item) :: rest => (key, item.toValue) :: entryValues rest

/-- The tables of an array of tables, as values in the same order. -/
def elementValues : List (List (String × Item)) → List Value
  | [] => []
  | entries :: rest => .table (entryValues entries) :: elementValues rest

end

end FlatStore.Toml
