/-! # Words of a command line

    A line is cut into words by the rules of the POSIX shell. Blanks separate
    words; single quotes keep everything as it is; double quotes keep
    everything but a backslash before one of `$`, a grave accent, `"`, `\` and
    the line end; outside quotes a backslash takes the next character as it
    is; a `#` where a word would start hides the rest of the line. A quote
    left open, or a backslash at the very end, makes the line no words at all.
-/

namespace FlatStore.Words

/-- Where in the line the next character stands; texts are kept last character first. -/
inductive Place where
  | between
  | comment
  | word (text : List Char)
  | escaped (text : List Char)
  | single (text : List Char)
  | double (text : List Char)
  | doubleEscaped (text : List Char)

/-- Whether the character separates words. -/
def isSeparator (c : Char) : Bool :=
  c == ' ' || c == '\t' || c == '\n'

/-- A character inside a word and outside quotes. -/
def Place.inWord (text : List Char) (c : Char) : Place :=
  match c with
  | '"' => .double text
  | '\'' => .single text
  | '\\' => .escaped text
  | c => .word (c :: text)

/-- A character after a backslash inside double quotes. -/
def afterBackslash (text : List Char) (c : Char) : List Char :=
  if c == '$' || c == '\x60' || c == '"' || c == '\\' then c :: text
  else if c == '\n' then text
  else c :: '\\' :: text

/-- Where the line stands after one more character. -/
def Place.next (place : Place) (c : Char) : Place :=
  match place with
  | .between =>
    if isSeparator c then .between else if c == '#' then .comment else .inWord [] c
  | .comment => if c == '\n' then .between else .comment
  | .word text => if isSeparator c then .between else .inWord text c
  | .escaped text => .word (if c == '\n' then text else c :: text)
  | .single text => if c == '\'' then .word text else .single (c :: text)
  | .double text =>
    if c == '"' then .word text else if c == '\\' then .doubleEscaped text else .double (c :: text)
  | .doubleEscaped text => .double (afterBackslash text c)

/-- The word that the character ends, if it ends one. -/
def Place.ended (place : Place) (c : Char) : Option String :=
  match place with
  | .word text => if isSeparator c then some (String.ofList text.reverse) else none
  | _ => none

/-- The words from some place in the line on. -/
def wordsFrom : Place → List Char → Option (List String)
  | .between, [] => some []
  | .comment, [] => some []
  | .word text, [] => some [String.ofList text.reverse]
  | _, [] => none
  | place, c :: rest =>
    match place.ended c with
    | some word => (wordsFrom (place.next c) rest).map (word :: ·)
    | none => wordsFrom (place.next c) rest

/-- The words of a line; nothing when a quote or a backslash is left open. -/
def split (line : String) : Option (List String) :=
  wordsFrom .between line.toList

end FlatStore.Words
