import FlatStore.Console.Invocation

/-! # The program

    Takes the files that an invocation can touch into memory, runs it there,
    and writes back what it changed.
-/

namespace FlatStore.Main

/-- How the program is called. -/
def usage : String :=
  "usage: chatkv [--db PATH] [--ephemeral] [--lru N] [-v] [map|counter|flag|list|tree|compact ...]"

/-- A place as the file system spells it. -/
def spell (path : Path) : String := "/" ++ String.intercalate "/" path

/-- What is left to read from an open file; nothing for a directory, which can be opened but not
read. -/
def content? (file : IO.FS.Handle) : IO (Option Bytes) := do
  try
    return some (← file.readBinToEnd)
  catch _ => return none

/-- The disk with what the file system has at a place. -/
def load (disk : Disk) (path : Path) : IO Disk := do
  let opened ← (IO.FS.Handle.mk (spell path) .read).toBaseIO
  match opened with
  | .error _ => return disk
  | .ok file =>
    match ← content? file with
    | none => return disk.addDirectories [] path
    | some bytes => return disk.addFile path bytes

/-- Bring a directory to the file system. -/
def storeDirectory (disk : Disk) (path : Path) : IO Unit := do
  if disk.lookup path = some .directory ∧ path ≠ [] then
    IO.FS.createDirAll (spell path)

/-- Bring a file to the file system if it is new, changed or gone. -/
def storeFile (before after : Disk) (path : Path) : IO Unit := do
  match before.file? path, after.file? path with
  | some _, none => IO.FS.removeFile (spell path)
  | _, none => return ()
  | none, some new => IO.FS.writeBinFile (spell path) new
  | some old, some new =>
    if old != new then
      IO.FS.writeBinFile (spell path) new

/-- Everything that a stream still holds. -/
partial def readAll (stream : IO.FS.Stream) (taken : Bytes) : IO Bytes := do
  let more ← stream.read 65536
  if more.isEmpty then return taken
  readAll stream (taken ++ more)

/-- The input of an invocation; one with a command leaves it alone. -/
def inputOf (invocation : Console.Invocation) (stream : IO.FS.Stream) : IO Bytes :=
  if invocation.command.isSome then return .empty else readAll stream .empty

/-- Print what a run has printed and complained about. -/
def display (t : Console.Transcript) : IO Unit := do
  IO.print t.printed
  for complaint in t.complaints do
    IO.eprintln complaint.report

/-- Run an invocation on the files it can touch. -/
def runHere (invocation : Console.Invocation) (input : Bytes) : IO Console.Transcript := do
  let here : WrittenPath := ⟨toString (← IO.currentDir)⟩
  let workingDirectory := here.steps.map PathStep.name
  let start : Disk := { (Disk.addDirectories {} [] workingDirectory) with workingDirectory }
  let places :=
    match invocation.opening.path with
    | some path => path.places (start.start path)
    | none => []
  let files := places.flatMap fun place =>
    [Opening.settingsFileName, Log.fileName, Log.sideName].map fun name => place ++ [name]
  let before ← (places ++ files).foldlM load start
  let (t, after) := invocation.run input before
  for place in places do
    storeDirectory after place
  for file in files do
    storeFile before after file
  return t

/-- Run the program. -/
def run (words : List String) : IO Nat := do
  match Console.Invocation.read words with
  | .error e =>
    IO.eprintln usage
    return Console.usageCode e
  | .ok invocation =>
    let stream ← IO.getStdin
    if invocation.command.isNone && (← stream.isTty) then
      IO.println usage
      return 1
    let t ← runHere invocation (← inputOf invocation stream)
    display t
    return t.exitCode

end FlatStore.Main

/-- Run the program with the words it was called with. -/
def main (words : List String) : IO UInt32 := do
  return UInt32.ofNat (← FlatStore.Main.run words)
