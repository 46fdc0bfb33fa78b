import FlatStore.Console
import FlatStore.Database.Opening

/-! # Invocations

    A process is called with words that choose a database and may hold one
    command. With a command it runs that command; without one it runs the lines
    of its input. Then it closes the database.
-/

namespace FlatStore.Console

/-- What the words of a process ask for. -/
structure Invocation where
  opening : Opening
  /-- The command among the words, or why it stands for no action; lines are read if there is
  none. -/
  command : Option (Except Command.ActionFault Action)

namespace Invocation

/-- The directory of the database when none is named. -/
def defaultDirectory : String := ".chatkv"

/-- The opening that the options of a process ask for. -/
def openingOf (m : Command.Matched) : Opening where
  path := some ⟨(m.text? "db").getD defaultDirectory⟩
  ephemeral := (m.text? "ephemeral").isSome
  cache := do
    let capacity ← (Integer.unsigned64 (← m.text? "lru")).toOption
    return .lru capacity

/-- What the words of a process ask for. -/
def read (words : List String) : Except Command.UsageError Invocation := do
  let m ← Command.processGrammar.read Command.processOptions words
  return { opening := openingOf m, command := if m.path.isEmpty then none else some m.action }

/-- Run the command, or else the lines of the input. -/
def runOn (i : Invocation) (input : Bytes) (db : Database) : Transcript × Database :=
  match i.command with
  | none => runInput input db
  | some (.error fault) => (.ofVerdict (.refused (.action fault)), db)
  | some (.ok action) =>
    let (verdict, db) := runAction action db
    (.ofVerdict verdict, db)

/-- Close the database behind a run; an abandoned run only lets go of it. -/
def finish (t : Transcript) (db : Database) : Transcript × Disk :=
  if t.abandoned.isSome then (t, db.release)
  else
    match db.close with
    | (.ok (), disk) => (t, disk)
    | (.error e, disk) => (t.complain (.error e), disk)

/-- Open the database, run, and close it. -/
def run (i : Invocation) (input : Bytes) (disk : Disk) : Transcript × Disk :=
  match i.opening.run disk with
  | .error (e, disk) => (.ofVerdict (.refused (.error e)), disk)
  | .ok db =>
    let (t, db) := i.runOn input db
    finish t db

end Invocation

/-- The exit code of a process whose words are not what it can be called with. -/
def usageCode : Command.UsageError → Nat
  | .helpWanted => 0
  | _ => 2

end FlatStore.Console
