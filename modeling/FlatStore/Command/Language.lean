import FlatStore.Command.Grammar
import FlatStore.Request

/-! # The command language

    The commands on maps, counters, flags, lists and trees, and the action
    that each of them stands for. The same commands make up a line in pipe mode
    and, behind options that choose the database, the words of a process.
-/

namespace FlatStore.Command

/-! ### Grammar -/

/-- The number of a counter, flag, list or namespace. -/
def idParameter (name : String) : Parameter := { name, kind := .unsigned64 }

/-- An option with a text. -/
def textOption (name : String) : Parameter := { name, named := true }

/-- A positional text. -/
def textParameter (name : String) : Parameter := { name }

/-- The components of a tree key. -/
def keyParameter : Parameter := { name := "key", negative := true, many := true }

/-- A number in a list. -/
def memberParameter : Parameter := { name := "value", kind := .signed32, negative := true }

/-- Map entries. -/
def mapGroup : Grammar :=
  .group "map" true [
    .command "get" [textParameter "key"] [],
    .command "set" [textParameter "key", textParameter "value"] []]

/-- Counters. -/
def counterGroup : Grammar :=
  let extra := [textOption "extra"]
  .group "counter" true [
    .command "get" [idParameter "id"] extra,
    .command "set"
      [idParameter "id", { name := "value", kind := .signed64, negative := true }] extra,
    .command "inc" [idParameter "id"] extra,
    .command "dec" [idParameter "id"] extra]

/-- Validity flags. -/
def flagGroup : Grammar :=
  let flag (name : String) : Grammar :=
    .command name [idParameter "id", textParameter "key"] [textOption "extra"]
  .group "flag" true [flag "set", flag "clear", flag "check"]

/-- Integer lists. -/
def listGroup : Grammar :=
  let member (name : String) : Grammar :=
    .command name [idParameter "id", memberParameter] [textOption "key"]
  .group "list" true [member "add", member "remove", member "contains",
    .command "show" [idParameter "id"] [textOption "key"]]

/-- Ordered trees. -/
def treeGroup : Grammar :=
  let order := [textOption "order"]
  .group "tree" true [
    .command "insert" [idParameter "ns", textParameter "data", keyParameter] order,
    .command "delete" [idParameter "ns", keyParameter] order,
    .command "get" [idParameter "ns", keyParameter] order,
    .command "list" [idParameter "ns"] order,
    .command "top" [idParameter "ns", { name := "n", kind := .unsigned64 }] [],
    .command "size" [idParameter "ns"] []]

/-- All commands. -/
def commands : List Grammar :=
  [mapGroup, counterGroup, flagGroup, listGroup, treeGroup, .command "compact" [] []]

/-- The grammar of a line in pipe mode. -/
def lineGrammar : Grammar := .group "" true commands

/-- The grammar of the words of a process; without a command it reads lines. -/
def processGrammar : Grammar := .group "" false commands

/-- The options that choose the database. -/
def processOptions : Shared where
  options := [textOption "db", { name := "lru", kind := .unsigned64, named := true }]
  switches := [{ name := "ephemeral" }, { name := "verbose", short := 'v', counts := true }]

/-! ### Actions -/

/-- Why a line that the grammar accepts stands for no action. -/
inductive ActionFault where
  | order (name : KeyOrder.UnknownName)
  /-- The orders on the line and the key on the line have different lengths. -/
  | componentCount (orders components : Nat)
  | missing (name : String)
  | unknown (path : List String)
  deriving DecidableEq, Repr

/-- The wording of a fault. -/
def ActionFault.message : ActionFault → String
  | .order name => name.message
  | .componentCount orders components =>
    "--order names " ++ toString orders ++ " components but the key has " ++ toString components
  | .missing name => "Missing argument: " ++ name
  | .unknown path => "Unknown command: " ++ String.intercalate " " path

namespace Matched

/-- The text under a name, if there is one. -/
def text? (m : Matched) (name : String) : Option String :=
  (m.values.lookup name).bind List.head?

/-- The text under a name. -/
def text (m : Matched) (name : String) : Except ActionFault String :=
  match m.text? name with
  | some text => .ok text
  | none => .error (.missing name)

/-- The number under a name. -/
def number {α : Type} (parse : String → Except Integer.Fault α) (m : Matched) (name : String) :
    Except ActionFault α := do
  match parse (← m.text name) with
  | .ok n => return n
  | .error _ => throw (.missing name)

/-- The unsigned number under a name. -/
def nat (m : Matched) (name : String) : Except ActionFault Nat := m.number Integer.unsigned64 name

/-- The components of the key. -/
def key (m : Matched) : List String := (m.values.lookup "key").getD []

/-- The orders on the line, if there are any; they have to be as many as the key's components,
unless the command has no key. -/
def orders (m : Matched) (components : Nat) : Except ActionFault (Option (List KeyOrder)) := do
  match m.text? "order" with
  | none => return none
  | some raw =>
    match KeyOrder.parseList raw with
    | .error name => throw (.order name)
    | .ok orders =>
      if components > 0 ∧ orders.length ≠ components then
        throw (.componentCount orders.length components)
      return some orders

/-- The request that a line stands for. -/
def request (m : Matched) : Except ActionFault Request := do
  let extra := m.text? "extra"
  let listKey := m.text? "key"
  match m.path with
  | ["map", "get"] => return .mapGet (← m.text "key")
  | ["map", "set"] => return .mapSet (← m.text "key") (← m.text "value")
  | ["counter", "get"] => return .counterGet (← m.nat "id") extra
  | ["counter", "set"] =>
    return .counterSet (← m.nat "id") extra (← m.number Integer.signed64 "value")
  | ["counter", "inc"] => return .counterIncrement (← m.nat "id") extra
  | ["counter", "dec"] => return .counterDecrement (← m.nat "id") extra
  | ["flag", "set"] => return .flagSet (← m.nat "id") (← m.text "key") extra
  | ["flag", "clear"] => return .flagClear (← m.nat "id") (← m.text "key") extra
  | ["flag", "check"] => return .flagCheck (← m.nat "id") (← m.text "key") extra
  | ["list", "add"] => return .listAdd (← m.nat "id") listKey (← m.number Integer.signed32 "value")
  | ["list", "remove"] =>
    return .listRemove (← m.nat "id") listKey (← m.number Integer.signed32 "value")
  | ["list", "contains"] =>
    return .listContains (← m.nat "id") listKey (← m.number Integer.signed32 "value")
  | ["list", "show"] => return .listShow (← m.nat "id") listKey
  | ["tree", "insert"] =>
    return .treeInsert (← m.nat "ns") (← m.orders m.key.length) m.key (← m.text "data")
  | ["tree", "delete"] => return .treeDelete (← m.nat "ns") (← m.orders m.key.length) m.key
  | ["tree", "get"] => return .treeGet (← m.nat "ns") (← m.orders m.key.length) m.key
  | ["tree", "list"] => return .treeList (← m.nat "ns") (← m.orders 0)
  | ["tree", "top"] => return .treeTop (← m.nat "ns") (← m.nat "n")
  | ["tree", "size"] => return .treeSize (← m.nat "ns")
  | path => throw (.unknown path)

/-- The action that a line stands for. -/
def action (m : Matched) : Except ActionFault Action :=
  match m.path with
  | ["compact"] => .ok .compact
  | _ => m.request.map .request

end Matched

/-! ### Lines -/

/-- Why the words of a line stand for no action. -/
inductive LineFault where
  | usage (e : UsageError)
  | action (fault : ActionFault)
  deriving DecidableEq, Repr

/-- The action that the words of a line stand for. -/
def readLine (words : List String) : Except LineFault Action :=
  match lineGrammar.read {} words with
  | .error e => .error (.usage e)
  | .ok m => m.action.mapError .action

end FlatStore.Command
