import FlatStore.Text.Blank
import FlatStore.Text.Commas
import FlatStore.Text.Integer
import FlatStore.Text.Quoted

/-! # Key orders

    A tree key is a list of texts, and each position has an order of its own:

    * `lex` compares the texts by their characters;
    * `asc` puts integers first, smallest first, and all other texts behind
      them by their characters;
    * `desc` does the same with the largest integer first.

    Keys are compared position by position; the first difference decides.
-/

namespace FlatStore

/-- The order of one key component. -/
inductive KeyOrder where
  | lex
  | asc
  | desc
  deriving DecidableEq, Repr

namespace KeyOrder

/-! ### Comparing -/

/-- A component as it is ranked: an integer, or a text that is none. -/
def integer? (s : String) : Option Int :=
  (Integer.signed64 s).toOption

/-- Integers before other texts, compared by `ranks`; other texts by their characters. -/
def compareNumeric (ranks : Int → Int → Ordering) (a b : String) : Ordering :=
  match integer? a, integer? b with
  | some x, some y => ranks x y
  | some _, none => .lt
  | none, some _ => .gt
  | none, none => compare a b

/-- How two components stand to each other. -/
def compareComponents (order : KeyOrder) (a b : String) : Ordering :=
  match order with
  | .lex => compare a b
  | .asc => compareNumeric (fun x y => compare x y) a b
  | .desc => compareNumeric (fun x y => compare y x) a b

/-- How two keys stand to each other: the first position that differs decides. -/
def compareKeys : List KeyOrder → List String → List String → Ordering
  | order :: orders, a :: as, b :: bs =>
    (order.compareComponents a b).then (compareKeys orders as bs)
  | _, _, _ => .eq

/-- The texts from first to last under an order; texts that compare equal keep their places. -/
def sort (order : KeyOrder) (texts : List String) : List String :=
  texts.mergeSort fun a b => (order.compareComponents a b).isLE

/-! ### Names -/

/-- The name of an order. -/
def name : KeyOrder → String
  | .lex => "lex"
  | .asc => "asc"
  | .desc => "desc"

/-- The order of a name. -/
def ofName? : String → Option KeyOrder
  | "lex" => some .lex
  | "asc" => some .asc
  | "desc" => some .desc
  | _ => none

theorem ofName?_name (order : KeyOrder) : ofName? order.name = some order := by
  cases order <;> rfl

/-- A text that names no order. -/
structure UnknownName where
  text : String
  deriving DecidableEq, Repr

/-- The wording for a text that names no order. -/
def UnknownName.message (e : UnknownName) : String :=
  "unknown key order " ++ Text.quoted e.text ++ " (expected lex, asc or desc)"

/-- The order that a part of a list names; blanks around it do not count. -/
def parse (part : String) : Except UnknownName KeyOrder :=
  let text := Text.trim part
  match ofName? text with
  | some order => .ok order
  | none => .error ⟨text⟩

/-- The orders of a list such as `desc,lex`; the first part that names none is reported. -/
def parseList (s : String) : Except UnknownName (List KeyOrder) :=
  (Text.splitCommas s).mapM parse

/-- The list as it is stored. -/
def joinList (orders : List KeyOrder) : String :=
  Text.joinCommas (orders.map name)

end KeyOrder

end FlatStore
