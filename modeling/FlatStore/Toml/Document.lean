import FlatStore.Toml.Scalar
import FlatStore.Toml.Table

/-! # Settings documents

    A document is a list of lines: pairs of a key and a value, and headers of
    tables and of arrays of tables. The pairs behind a header belong to its
    table; those before the first header belong to the document itself.
-/

namespace FlatStore.Toml

/-! ### Values -/

/-- How deep arrays and inline tables may lie in each other. -/
def maxDepth : Nat := 79

mutual

/-- A value; `depth` more levels are allowed. Each level takes two of the fuel and each element one,
so twice the number of characters and one more is fuel enough. -/
def value (fuel depth : Nat) (cs : List Char) : Option (Value × List Char) :=
  match fuel with
  | 0 => none
  | fuel + 1 =>
    match cs, depth with
    | '[' :: _, 0 => none
    | '\x7b' :: _, 0 => none
    | '[' :: rest, depth + 1 => do
      let (vs, rest) ← elements fuel depth (skipBlank fuel rest)
      return (.array vs, rest)
    | '\x7b' :: rest, depth + 1 => do
      let (pairs, rest) ←
        match skipSpaces rest with
        | '\x7d' :: rest => some ([], rest)
        | rest => inlinePairs fuel depth rest
      let entries ← Entries.insertPairs [] pairs
      return (.table (entryValues entries), rest)
    | cs, _ => scalar fuel cs

/-- The elements of an array up to its closing bracket, read behind blanks. -/
def elements (fuel depth : Nat) (cs : List Char) : Option (List Value × List Char) :=
  match fuel, cs with
  | 0, _ => none
  | _, ']' :: rest => some ([], rest)
  | fuel + 1, cs => do
    let (v, rest) ← value fuel depth cs
    match skipBlank fuel rest with
    | ']' :: rest => return ([v], rest)
    | ',' :: rest => do
      let (vs, rest) ← elements fuel depth (skipBlank fuel rest)
      return (v :: vs, rest)
    | _ => none

/-- The pairs of an inline table, at least one, up to its closing brace. -/
def inlinePairs (fuel depth : Nat) (cs : List Char) : Option (Entries.Pairs × List Char) :=
  match fuel with
  | 0 => none
  | fuel + 1 => do
    let (path, rest) ← key fuel cs
    let rest ← expect '=' rest
    let (v, rest) ← value fuel depth (skipSpaces rest)
    let pair := (path.dropLast, path.getLast?.getD "", v)
    match skipSpaces rest with
    | '\x7d' :: rest => return ([pair], rest)
    | ',' :: rest => do
      let (pairs, rest) ← inlinePairs fuel depth rest
      return (pair :: pairs, rest)
    | _ => none

end

/-! ### Lines -/

/-- What a line says. -/
inductive Line where
  | pair (path : List String) (v : Value)
  | table (path : List String)
  | element (path : List String)

/-- A line that is not blank, with its end. -/
def line (fuel : Nat) (cs : List Char) : Option (Line × List Char) :=
  match cs with
  | '[' :: '[' :: rest => do
    let (path, rest) ← key fuel rest
    let rest ← lineEnd? (← expect ']' (← expect ']' rest))
    return (.element path, rest)
  | '[' :: rest => do
    let (path, rest) ← key fuel rest
    let rest ← lineEnd? (← expect ']' rest)
    return (.table path, rest)
  | cs => do
    let (path, rest) ← key fuel cs
    let rest ← expect '=' rest
    let (v, rest) ← value fuel maxDepth (skipSpaces rest)
    return (.pair path v, ← lineEnd? rest)

/-- All lines, over at most `fuel` of them; a line takes at least one character, so what is left
of the fuel keeps up with what is left of the text. -/
def lines : (fuel : Nat) → List Char → Option (List Line)
  | 0, _ => none
  | fuel + 1, cs =>
    match skipSpaces cs with
    | [] => some []
    | '#' :: rest => do lines fuel (← lineEnd? ('#' :: rest))
    | start =>
      match newline? start with
      | some rest => lines fuel rest
      | none => do
        let (first, rest) ← line fuel start
        return first :: (← lines fuel rest)

/-! ### Documents -/

/-- The pairs in front of the first header, and the lines from there on. -/
def leadingPairs : List Line → Entries.Pairs × List Line
  | .pair path v :: rest =>
    let (pairs, rest) := leadingPairs rest
    ((path.dropLast, path.getLast?.getD "", v) :: pairs, rest)
  | rest => ([], rest)

/-- Add the tables of all headers, over at most `fuel` of them. -/
def addSections : (fuel : Nat) → Entries → List Line → Option Entries
  | 0, entries, _ => some entries
  | fuel + 1, entries, header :: rest =>
    let (pairs, rest) := leadingPairs rest
    let added : Option Entries :=
      match header with
      | .table path =>
        entries.descend (Entries.addTable pairs (path.getLast?.getD "")) path.dropLast
      | .element path =>
        entries.descend (Entries.addElement pairs (path.getLast?.getD "")) path.dropLast
      | .pair .. => some entries
    do addSections fuel (← added) rest
  | _, entries, [] => some entries

/-- The keys and values of a document; nothing if the text is no document. A byte order mark at its
start does not count. -/
def document (text : String) : Option (List (String × Value)) := do
  let cs := match text.toList with
    | '\ufeff' :: rest => rest
    | cs => cs
  -- Values ask for twice as much fuel as there are characters, and one more.
  let all ← lines (2 * cs.length + 2) cs
  let (pairs, sections) := leadingPairs all
  let entries ← addSections sections.length (← Entries.insertPairs [] pairs) sections
  return entryValues entries

end FlatStore.Toml
