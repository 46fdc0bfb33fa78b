import FlatStore.Text.Integer

/-! # Command grammars

    A grammar is a tree of groups with commands at the leaves. A command has
    positional parameters and options; some options and switches may be shared
    by all levels. The words of a line are read one by one:

    * in a group, a word that names a member goes on with that member, and
      `help` asks for help on the members named after it;
    * `--name` and `--name=value` are options, `-x` is a run of switches, and
      `--` makes all words after it positional;
    * a word like `-5` is a value where a number below zero is allowed.

    Values wait until the next parameter starts; only then are they counted and
    checked. So of two faults in a line the one that is met first is reported.
-/

namespace FlatStore.Command

/-- Why the words of a line are not a command. -/
inductive UsageError where
  | missingParameter
  | missingCommand
  | unknownCommand
  | unknownWord
  /-- A value is not a number of the wanted range. -/
  | badNumber
  /-- An option stands without its value. -/
  | missingValue
  /-- A switch was given a value. -/
  | unwantedValue
  /-- An option or switch stands twice. -/
  | repeated
  | helpWanted
  deriving DecidableEq, Repr

/-- What the values of a parameter have to be. -/
inductive Kind where
  | text
  | unsigned64
  | signed64
  | signed32
  deriving DecidableEq, Repr

/-- Whether a word is a value of the kind. -/
def Kind.accepts : Kind → String → Bool
  | .text, _ => true
  | .unsigned64, word => (Integer.unsigned64 word).isOk
  | .signed64, word => (Integer.signed64 word).isOk
  | .signed32, word => (Integer.signed32 word).isOk

/-- A named value of a command. -/
structure Parameter where
  name : String
  kind : Kind := .text
  /-- Whether a word like `-5` can be its value. -/
  negative : Bool := false
  /-- Whether it takes all the values that come. -/
  many : Bool := false
  /-- Whether it is given by its name and not by its position. -/
  named : Bool := false
  deriving DecidableEq, Repr

/-- A word that is on or off. -/
structure Switch where
  name : String
  short : Option Char := none
  /-- Whether it may stand more than once. -/
  counts : Bool := false
  deriving DecidableEq, Repr

/-- Options and switches that can stand at every level. -/
structure Shared where
  options : List Parameter := []
  switches : List Switch := []

/-- A command, or a group of commands and groups. -/
inductive Grammar where
  | command (name : String) (positionals options : List Parameter)
  | group (name : String) (required : Bool) (members : List Grammar)

namespace Grammar

/-- The word that calls the command or group. -/
def name : Grammar → String
  | .command name _ _ => name
  | .group name _ _ => name

/-- The members of a group. -/
def members : Grammar → List Grammar
  | .command .. => []
  | .group _ _ members => members

/-- The positional parameters of a command. -/
def positionals : Grammar → List Parameter
  | .command _ positionals _ => positionals
  | .group .. => []

/-- The options of a command. -/
def options : Grammar → List Parameter
  | .command _ _ options => options
  | .group .. => []

/-- Whether it has members. -/
def isGroup : Grammar → Bool
  | .command .. => false
  | .group .. => true

/-- The member that a word calls. -/
def member? (g : Grammar) (word : String) : Option Grammar :=
  g.members.find? fun m => m.name = word

/-- What comes of asking for help on the member that the words lead to. -/
def help (g : Grammar) : List String → UsageError
  | [] => .helpWanted
  | word :: words =>
    if g.isGroup && word = "help" then help (.command "help" [] []) words
    else
      match g.member? word with
      | some member => member.help words
      | none => .unknownCommand

end Grammar

/-! ### Words -/

/-- Digits with at most one point and one exponent: the point neither first nor behind the exponent,
the exponent neither first nor last. -/
def looksNumeric (cs : List Char) : Bool :=
  let isDigit (c : Char) : Bool := '0' ≤ c && c ≤ '9'
  let isExponent (c : Char) : Bool := c == 'e' || c == 'E'
  let before := cs.takeWhile fun c => !isExponent c
  let digitsAndPoint := before.all (fun c => isDigit c || c == '.') &&
    before.count '.' ≤ 1 && before.head? != some '.'
  match cs.drop before.length with
  | [] => digitsAndPoint
  | _ :: after => digitsAndPoint && !before.isEmpty && !after.isEmpty && after.all isDigit

/-- What a word looks like. -/
inductive Look where
  /-- The two dashes that make all words after them positional. -/
  | divider
  /-- A name behind two dashes, with the value behind its first equals sign. -/
  | long (name : String) (value : Option String)
  /-- Characters behind one dash. -/
  | short (letters : List Char)
  | plain

/-- What a word looks like. -/
def look (word : String) : Look :=
  match word.toList with
  | ['-', '-'] => .divider
  | '-' :: '-' :: rest =>
    let name := String.ofList (rest.takeWhile (· != '='))
    match rest.dropWhile (· != '=') with
    | [] => .long name none
    | _ :: value => .long name (some (String.ofList value))
  | '-' :: c :: rest => .short (c :: rest)
  | _ => .plain

/-! ### Reading -/

/-- What the next word may continue. -/
inductive Awaiting where
  | nothing
  /-- The value of an option. -/
  | option (p : Parameter)
  /-- More values of a positional parameter. -/
  | more (p : Parameter)

/-- How far one level of a line is read. -/
structure Reading where
  /-- Values by the names of their parameters and switches. -/
  values : List (String × List String) := []
  /-- A parameter whose values are not checked yet, the last value first. -/
  pending : Option (Parameter × List String) := none
  awaiting : Awaiting := .nothing
  /-- How many positional parameters are behind. -/
  position : Nat := 0
  /-- Whether the divider was met. -/
  divided : Bool := false

namespace Reading

/-- Add values under a name, behind those that are there. -/
def record (r : Reading) (name : String) (new : List String) : Reading :=
  let old := (r.values.lookup name).getD []
  { r with values := (name, old ++ new) :: r.values }

/-- Whether there are values under a name. -/
def has (r : Reading) (name : String) : Bool := (r.values.lookup name).isSome

/-- Count and check the values that wait. -/
def settle (r : Reading) : Except UsageError Reading :=
  match r.pending with
  | none => .ok r
  | some (p, words) =>
    if words.isEmpty then .error .missingValue
    else if p.named && r.has p.name then .error .repeated
    else if words.all p.kind.accepts then .ok ({ r with pending := none }.record p.name words.reverse)
    else .error .badNumber

/-- An option, with its value if that is attached. -/
def option (r : Reading) (p : Parameter) (value : Option String) : Except UsageError Reading := do
  let r ← r.settle
  match value with
  | some word => ({ r with pending := some (p, [word]), awaiting := .nothing } : Reading).settle
  | none => return { r with pending := some (p, []), awaiting := .option p }

/-- A switch. -/
def switch (r : Reading) (s : Switch) : Except UsageError Reading := do
  let r ← r.settle
  if !s.counts && r.has s.name then
    throw .repeated
  return ({ r with awaiting := .nothing } : Reading).record s.name ["true"]

/-- A request for help. -/
def help (r : Reading) : Except UsageError Reading := do
  let _ ← r.settle
  throw .helpWanted

/-- A name behind two dashes. -/
def long (r : Reading) (shared : Shared) (g : Grammar) (name : String) (value : Option String) :
    Except UsageError Reading :=
  match (g.options ++ shared.options).find? fun p => p.name = name with
  | some p => r.option p value
  | none =>
    match shared.switches.find? fun s => s.name = name with
    | some s => if value.isSome then .error .unwantedValue else r.switch s
    | none =>
      if name ≠ "help" then .error .unknownWord
      else if value.isSome then .error .unwantedValue
      else r.help

/-- Characters behind one dash. -/
def letters (r : Reading) (shared : Shared) : List Char → Except UsageError Reading
  | [] => .ok r
  | c :: rest => do
    match shared.switches.find? fun s => s.short = some c with
    | some s => letters (← r.switch s) shared rest
    | none => if c = 'h' then r.help else throw .unknownWord

/-- The fault of a positional word for which there is no parameter. -/
def surplus (r : Reading) (g : Grammar) (word : String) : UsageError :=
  if r.divided && (g.isGroup && word = "help" || (g.member? word).isSome) then .unknownWord
  else if g.isGroup then .unknownCommand
  else .unknownWord

/-- A positional word. -/
def positional (r : Reading) (g : Grammar) (word : String) : Except UsageError Reading := do
  match g.positionals[r.position]? with
  | none => throw (r.surplus g word)
  | some p =>
    match r.pending with
    | some (q, words) =>
      if q = p && p.many then
        return { r with pending := some (p, word :: words), awaiting := .more p }
    | none => pure ()
    let r ← r.settle
    let r := { r with pending := some (p, [word]) }
    if p.many then return { r with awaiting := .more p }
    return { r with awaiting := .nothing, position := r.position + 1 }

/-- A word that is the value of an option or positional. -/
def plain (r : Reading) (g : Grammar) (word : String) : Except UsageError Reading :=
  match r.awaiting with
  | .option p => .ok { r with pending := some (p, [word]), awaiting := .nothing }
  | _ => r.positional g word

/-- Whether a word like `-5` is a value here. -/
def takesNegative (r : Reading) (g : Grammar) : Bool :=
  let awaited : Bool :=
    match r.awaiting with
    | .nothing => false
    | .option p => p.negative
    | .more p => p.negative
  let next : Bool :=
    match g.positionals[r.position]? with
    | some p => p.negative
    | none => false
  awaited || next

/-- One word that does not call a member. -/
def take (r : Reading) (shared : Shared) (g : Grammar) (word : String) :
    Except UsageError Reading :=
  if r.divided then r.positional g word
  else
    match look word with
    | .divider => .ok { r with divided := true }
    | .long name value => r.long shared g name value
    | .short cs =>
      if r.takesNegative g && looksNumeric cs then r.plain g word else r.letters shared cs
    | .plain => r.plain g word

/-- Whether the next word may call a member. -/
def mayEnter (r : Reading) : Bool :=
  match r.awaiting with
  | .nothing => !r.divided
  | _ => false

/-- The end of a line at this level, without a member called. -/
def finish (r : Reading) (g : Grammar) : Except UsageError Reading := do
  let r ← r.settle
  match g with
  | .group _ true _ => throw .missingCommand
  | .group _ false _ => return r
  | .command _ positionals _ =>
    if positionals.all fun p => r.has p.name then return r else throw .missingParameter

end Reading

/-- A line that was read: the words that call its command, and the values of its parameters, those
of inner levels first. -/
structure Matched where
  path : List String
  values : List (String × List String)

/-- Read words at one level of a grammar. -/
def Grammar.readFrom (shared : Shared) (g : Grammar) (r : Reading) :
    List String → Except UsageError Matched
  | [] => do return ⟨[], (← r.finish g).values⟩
  | word :: rest =>
    if r.mayEnter && g.isGroup && word = "help" then .error (g.help rest)
    else
      match if r.mayEnter then g.member? word else none with
      | some member => do
        let inner ← member.readFrom shared {} rest
        let r ← r.settle
        return ⟨member.name :: inner.path, inner.values ++ r.values⟩
      | none => do g.readFrom shared (← r.take shared g word) rest

/-- Read the words of a line. -/
def Grammar.read (shared : Shared) (g : Grammar) (words : List String) :
    Except UsageError Matched :=
  g.readFrom shared {} words

end FlatStore.Command
