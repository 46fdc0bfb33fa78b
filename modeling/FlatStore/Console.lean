import FlatStore.Command.Language
import FlatStore.Database
import FlatStore.Text.Blank
import FlatStore.Text.Words

/-! # Command lines on a database

    Lines run one after the other on one open database, whatever became of the
    lines before. A line of blanks, or one that starts with `#`, is skipped. A
    line that fails says why; at its end the run has failed if any line did.

    * **Refused** lines are cut into no words, or are no command, or their
      command reports an error.
    * **Abandoned**: a defect ends the run on the spot.
    * Bytes that are no text end the reading of lines.
-/

namespace FlatStore

namespace Console

/-! ### What there is to complain about -/

/-- Why a command was refused. -/
inductive Complaint where
  | error (e : Error)
  | action (fault : Command.ActionFault)
  /-- A quote or a backslash is left open on the line of that number. -/
  | unbalanced (line : Nat)
  /-- The words on the line of that number are not a command. -/
  | usage (line : Nat)
  | notText
  deriving DecidableEq, Repr

/-- The wording of a complaint. -/
def Complaint.message : Complaint → String
  | .error e => e.message
  | .action fault => fault.message
  | .unbalanced line => "line " ++ toString line ++ ": unbalanced quotes"
  | .usage line => "line " ++ toString line ++ ": usage"
  | .notText => DiskFault.notText.message

/-- The complaint as it is printed. -/
def Complaint.report (c : Complaint) : String := "(error) " ++ c.message

/-! ### Single commands -/

/-- What a line comes to. -/
inductive Verdict where
  | skipped
  | printed (output : Output)
  | refused (why : Complaint)
  | abandoned (why : Failure)
  deriving DecidableEq, Repr

/-- Whether a line that comes to this has failed. -/
def Verdict.failed : Verdict → Bool
  | .skipped => false
  | .printed _ => false
  | .refused _ => true
  | .abandoned _ => true

/-- Run a command. -/
def runAction (action : Action) (db : Database) : Verdict × Database :=
  match Database.execute action db with
  | .ok output db => (.printed output, db)
  | .error (.error e) db => (.refused (.error e), db)
  | .error failure db => (.abandoned failure, db)

/-- Whether a trimmed line is skipped. -/
def isIdle (line : String) : Bool := line.isEmpty || line.toList.head? == some '#'

/-- Run the line of a number. -/
def runLine (number : Nat) (line : String) (db : Database) : Verdict × Database :=
  let line := Text.trim line
  if isIdle line then (.skipped, db)
  else
    match Words.split line with
    | none => (.refused (.unbalanced number), db)
    | some words =>
      match Command.readLine words with
      | .error (.usage _) => (.refused (.usage number), db)
      | .error (.action fault) => (.refused (.action fault), db)
      | .ok action => runAction action db

/-! ### Many lines -/

/-- What a run has printed and complained about, in order. -/
structure Transcript where
  outputs : List Output := []
  complaints : List Complaint := []
  /-- Why the run ended on the spot, if it did. -/
  abandoned : Option Failure := none
  deriving DecidableEq, Repr

namespace Transcript

/-- The transcript with what a line came to in front. -/
def after (t : Transcript) : Verdict → Transcript
  | .skipped => t
  | .printed output => { t with outputs := output :: t.outputs }
  | .refused why => { t with complaints := why :: t.complaints }
  | .abandoned why => { abandoned := some why }

/-- The transcript of a single command. -/
def ofVerdict (v : Verdict) : Transcript := ({} : Transcript).after v

/-- The transcript with one more complaint at the end. -/
def complain (t : Transcript) (c : Complaint) : Transcript :=
  { t with complaints := t.complaints ++ [c] }

/-- The exit code: 0 when all went well, 1 after a complaint, 101 when the run was abandoned. -/
def exitCode (t : Transcript) : Nat :=
  if t.abandoned.isSome then 101 else if t.complaints.isEmpty then 0 else 1

/-- The printed results, each with a line end. -/
def printed (t : Transcript) : String :=
  String.join (t.outputs.map fun output => output.render ++ "\n")

end Transcript

/-- The lines of some bytes. Each ends with a line feed; behind the last one it may be missing. -/
def lines (input : Bytes) : List Bytes :=
  let pieces := input.data.toList.splitOn 10
  let whole := if pieces.getLast? = some [] then pieces.dropLast else pieces
  whole.map fun piece => ⟨piece.toArray⟩

/-- Run lines, the first of which has the given number. -/
def runLines (number : Nat) : List Bytes → Database → Transcript × Database
  | [], db => ({}, db)
  | line :: rest, db =>
    match Utf8.decode line with
    | .error _ => ({ complaints := [.notText] }, db)
    | .ok text =>
      match runLine number text db with
      | (.abandoned why, db) => ({ abandoned := some why }, db)
      | (verdict, db) =>
        let (t, db) := runLines (number + 1) rest db
        (t.after verdict, db)

/-- Run the lines of some bytes. -/
def runInput (input : Bytes) (db : Database) : Transcript × Database :=
  runLines 1 (lines input) db

end Console

end FlatStore
