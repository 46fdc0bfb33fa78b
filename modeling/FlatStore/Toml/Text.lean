/-! # Settings documents: text

    Blanks, line ends, comments, strings and keys. A reader takes characters
    off the front and gives what it read and the rest, or nothing. Where it
    asks for fuel, one more than there are characters is enough.

    * Strings come in four kinds: in double quotes with escapes, in single
      quotes without, and each of them over several lines in triple quotes.
    * A key is a run of bare characters or a string on one line; a dotted key
      is several of them.
-/

namespace FlatStore.Toml

/-! ### Blanks and comments -/

/-- Space and tab. -/
def isSpace (c : Char) : Bool := c == ' ' || c == '\t'

/-- Characters that may stand in comments and strings: all but the controls, and the tab. -/
def isPlain (c : Char) : Bool := c == '\t' || (' ' ≤ c && c != '\x7f')

/-- The rest behind spaces and tabs. -/
def skipSpaces (cs : List Char) : List Char := cs.dropWhile isSpace

/-- The rest behind a line end. -/
def newline? : List Char → Option (List Char)
  | '\n' :: rest => some rest
  | '\r' :: '\n' :: rest => some rest
  | _ => none

/-- The rest behind a comment, if one starts here; the line end stays. -/
def skipComment (cs : List Char) : List Char :=
  match cs with
  | '#' :: rest => rest.dropWhile isPlain
  | _ => cs

/-- The rest behind the end of a line, with a comment before it or not; the end of the document
counts as one. -/
def lineEnd? (cs : List Char) : Option (List Char) :=
  match skipComment (skipSpaces cs) with
  | [] => some []
  | rest => newline? rest

/-- The rest behind spaces, line ends and comments, over at most `fuel` lines. A comment has to end
with its line. -/
def skipBlank : (fuel : Nat) → List Char → List Char
  | 0, cs => cs
  | fuel + 1, cs =>
    let start := skipSpaces cs
    match newline? (skipComment start) with
    | some rest => skipBlank fuel rest
    | none => start

/-! ### Characters by number -/

/-- The value of a hexadecimal digit. -/
def hexDigit? (c : Char) : Option Nat :=
  if '0' ≤ c ∧ c ≤ '9' then some (c.toNat - '0'.toNat)
  else if 'a' ≤ c ∧ c ≤ 'f' then some (c.toNat - 'a'.toNat + 10)
  else if 'A' ≤ c ∧ c ≤ 'F' then some (c.toNat - 'A'.toNat + 10)
  else none

/-- The character whose number is written with exactly `count` hexadecimal digits. -/
def numbered (count : Nat) (cs : List Char) : Option (Char × List Char) := do
  let digits := cs.take count
  if digits.length < count then none
  let n ← digits.foldlM (fun n c => do return 16 * n + (← hexDigit? c)) 0
  if n.isValidChar then some (Char.ofNat n, cs.drop count) else none

/-- The character that an escape stands for, read behind its backslash. -/
def escape : List Char → Option (Char × List Char)
  | 'b' :: rest => some ('\x08', rest)
  | 't' :: rest => some ('\t', rest)
  | 'n' :: rest => some ('\n', rest)
  | 'f' :: rest => some ('\x0c', rest)
  | 'r' :: rest => some ('\r', rest)
  | '"' :: rest => some ('"', rest)
  | '\\' :: rest => some ('\\', rest)
  | 'u' :: rest => numbered 4 rest
  | 'U' :: rest => numbered 8 rest
  | _ => none

/-! ### Strings -/

/-- A character in front of what was read behind it. -/
def inFront (c : Char) (read : Option (List Char × List Char)) :
    Option (List Char × List Char) := do
  let (text, rest) ← read
  return (c :: text, rest)

/-- The inside of a string in double quotes and the rest behind it, over at most `fuel`
characters. -/
def basic : (fuel : Nat) → List Char → Option (List Char × List Char)
  | 0, _ => none
  | _, [] => none
  | fuel + 1, c :: rest =>
    if c = '"' then some ([], rest)
    else if c = '\\' then do
      let (e, rest) ← escape rest
      inFront e (basic fuel rest)
    else if isPlain c then inFront c (basic fuel rest)
    else none

/-- The inside of a string in single quotes and the rest behind it. -/
def literal : List Char → Option (List Char × List Char)
  | [] => none
  | c :: rest =>
    if c = '\'' then some ([], rest) else if isPlain c then inFront c (literal rest) else none

/-- The quotes at the front: three to five of them end a string of several lines, and those before
the last three belong to it. -/
def closing (quote : Char) (cs : List Char) : Option (List Char × List Char) :=
  let count := (cs.takeWhile (· == quote)).length
  if 3 ≤ count ∧ count ≤ 5 then some (List.replicate (count - 3) quote, cs.drop count) else none

/-- The rest behind spaces, tabs and line ends. A carriage return that ends no line stays. -/
def skipLines : List Char → List Char
  | '\r' :: '\n' :: rest => skipLines rest
  | c :: rest => if isSpace c || c == '\n' then skipLines rest else c :: rest
  | [] => []

/-- The rest behind an escaped line end, which also hides the blanks that start the lines after it.
Read behind the backslash. -/
def hiddenLineEnd? (cs : List Char) : Option (List Char) :=
  (newline? (skipSpaces cs)).map skipLines

/-- The inside of a string of several lines, over at most `fuel` characters. A line end counts as
one line feed, however it is written. -/
def multiline (quote : Char) (escapes : Bool) :
    (fuel : Nat) → List Char → Option (List Char × List Char)
  | 0, _ => none
  | _, [] => none
  | fuel + 1, c :: rest =>
    if c = quote then
      match closing quote (c :: rest) with
      | some result => some result
      | none =>
        -- One quote or two belong to the text; three that end nothing are six or more.
        if rest.take 2 = [quote, quote] then none
        else inFront c (multiline quote escapes fuel rest)
    else if c = '\\' ∧ escapes then
      match hiddenLineEnd? rest with
      | some rest => multiline quote escapes fuel rest
      | none => do
        let (e, rest) ← escape rest
        inFront e (multiline quote escapes fuel rest)
    else
      match newline? (c :: rest) with
      | some rest => inFront '\n' (multiline quote escapes fuel rest)
      | none => if isPlain c then inFront c (multiline quote escapes fuel rest) else none

/-- A string of several lines, behind its opening quotes; a line end right behind them does not
count. -/
def multilineBody (quote : Char) (escapes : Bool) (fuel : Nat) (cs : List Char) :
    Option (List Char × List Char) :=
  multiline quote escapes fuel ((newline? cs).getD cs)

/-- A string on one line. -/
def lineString (fuel : Nat) : List Char → Option (String × List Char)
  | '"' :: rest => do
    let (text, rest) ← basic fuel rest
    return (String.ofList text, rest)
  | '\'' :: rest => do
    let (text, rest) ← literal rest
    return (String.ofList text, rest)
  | _ => none

/-- A string of any kind. -/
def string (fuel : Nat) (cs : List Char) : Option (String × List Char) :=
  match cs with
  | '"' :: '"' :: '"' :: rest => do
    let (text, rest) ← multilineBody '"' true fuel rest
    return (String.ofList text, rest)
  | '\'' :: '\'' :: '\'' :: rest => do
    let (text, rest) ← multilineBody '\'' false fuel rest
    return (String.ofList text, rest)
  | cs => lineString fuel cs

/-! ### Keys -/

/-- Characters of a bare key. -/
def isBare (c : Char) : Bool :=
  ('a' ≤ c && c ≤ 'z') || ('A' ≤ c && c ≤ 'Z') || ('0' ≤ c && c ≤ '9') || c == '_' || c == '-'

/-- One name of a key. -/
def name (fuel : Nat) (cs : List Char) : Option (String × List Char) :=
  match cs.takeWhile isBare with
  | [] => lineString fuel cs
  | bare => some (String.ofList bare, cs.dropWhile isBare)

/-- Names between dots, with spaces around them, at most `count` of them. -/
def names (fuel : Nat) : (count : Nat) → List Char → Option (List String × List Char)
  | 0, _ => none
  | count + 1, cs => do
    let (first, rest) ← name fuel (skipSpaces cs)
    match skipSpaces rest with
    | '.' :: rest => do
      let (more, rest) ← names fuel count rest
      return (first :: more, rest)
    | rest => return ([first], rest)

/-- The most names that a key may have. -/
def maxNames : Nat := 79

/-- A key, dotted or not. -/
def key (fuel : Nat) (cs : List Char) : Option (List String × List Char) :=
  names fuel maxNames cs

end FlatStore.Toml
