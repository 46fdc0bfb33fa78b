import FlatStore.Bytes
import FlatStore.Disk.Path

/-! # Disks

    A disk names files and directories by their paths and keeps the bytes of
    each file under a number of its own, so that an open file outlives its
    name: after it was removed or replaced, the writer still has its number.

    A call can fail for its own reasons (nothing there, a directory in the
    way, a path too long, the file would grow past the size limit) or because
    of a **mishap** laid down beforehand: one entry for each call to come,
    which lets it go ahead or makes it fail, a write after some of its bytes.
    So every way a sequence of calls can be cut short is a list of mishaps.
-/

namespace FlatStore

/-- Why a call on the disk failed. -/
inductive DiskFault where
  | notFound
  | isDirectory
  | notDirectory
  | alreadyExists
  | invalidName
  | nameTooLong
  | fileTooLarge
  | notText
  | mishap
  deriving DecidableEq, Repr

/-- The wording of a fault. -/
def DiskFault.message : DiskFault → String
  | .notFound => "no such file or directory"
  | .isDirectory => "is a directory"
  | .notDirectory => "not a directory"
  | .alreadyExists => "file exists"
  | .invalidName => "invalid file name"
  | .nameTooLong => "file name too long"
  | .fileTooLarge => "file too large"
  | .notText => "stream did not contain valid UTF-8"
  | .mishap => "input/output error"

/-- The number that an open file is known by. -/
abbrev FileNumber := Nat

/-- What a path names. -/
inductive DiskEntry where
  | directory
  | file (number : FileNumber)
  deriving DecidableEq, Repr

/-- The files and directories, and what limits the calls on them. -/
structure Disk where
  /-- Everything but the top directory, which is always there. -/
  entries : Std.TreeMap Path DiskEntry := ∅
  /-- The bytes of each file in the pieces in which they came, the last piece first, so that adding
  to a file takes no copy of it. -/
  contents : Std.TreeMap FileNumber (List Bytes) := ∅
  /-- The number of the next new file. -/
  fresh : FileNumber := 0
  /-- Where written paths start that do not start at the top. -/
  workingDirectory : Path := []
  /-- No file can be written past this length. -/
  sizeLimit : Option Nat := none
  /-- For each call to come, whether it fails, and after how many bytes of a write. -/
  mishaps : List (Option Nat) := []

namespace Disk

/-! ### Looking -/

/-- What is at a path. -/
def lookup (d : Disk) : Path → Option DiskEntry
  | [] => some .directory
  | path => d.entries[path]?

/-- The bytes of an open file. -/
def content (d : Disk) (number : FileNumber) : Bytes :=
  Bytes.ofPieces (d.contents.getD number [])

/-- The bytes of the file at a path, if there is one. -/
def file? (d : Disk) (path : Path) : Option Bytes :=
  match d.lookup path with
  | some (.file number) => some (d.content number)
  | _ => none

/-- The longest name of a file or directory, in bytes. -/
def maxNameLength : Nat := 255

/-- The longest written path, in bytes. -/
def maxPathLength : Nat := 4095

/-- What is wrong with the wording of a path, wherever it leads. -/
def wordingFault? (path : WrittenPath) : Option DiskFault :=
  if path.text.toList.contains '\x00' then some .invalidName
  else if path.text.utf8ByteSize > maxPathLength then some .nameTooLong
  else none

/-- Follow steps from a directory; every place on the way but the last has to be a directory. -/
def follow (d : Disk) : Path → List PathStep → Except DiskFault Path
  | path, [] => .ok path
  | path, step :: steps =>
    match d.lookup path with
    | none => .error .notFound
    | some (.file _) => .error .notDirectory
    | some .directory =>
      match step with
      | .up => d.follow path.dropLast steps
      | .down name =>
        if name.utf8ByteSize > maxNameLength then .error .nameTooLong
        else d.follow (path ++ [name]) steps

/-- Where a written path starts. -/
def start (d : Disk) (path : WrittenPath) : Path :=
  if path.isAbsolute then [] else d.workingDirectory

/-- The place that a written path leads to. -/
def resolve (d : Disk) (path : WrittenPath) : Except DiskFault Path :=
  match wordingFault? path with
  | some fault => .error fault
  | none => d.follow (d.start path) path.steps

/-! ### Changing, without fail -/

/-- The disk with other bytes in an open file. -/
def setContent (d : Disk) (number : FileNumber) (bytes : Bytes) : Disk :=
  { d with contents := d.contents.insert number [bytes] }

/-- The disk with more bytes at the end of an open file. -/
def extendContent (d : Disk) (number : FileNumber) (bytes : Bytes) : Disk :=
  { d with contents := d.contents.insert number (bytes :: d.contents.getD number []) }

/-- The bytes of an open file that was given them. -/
@[simp]
theorem content_setContent (d : Disk) (number : FileNumber) (bytes : Bytes) :
    (d.setContent number bytes).content number = bytes := by
  simp [content, setContent]

/-- Extending a file adds to the end of its bytes. -/
@[simp]
theorem content_extendContent (d : Disk) (number : FileNumber) (bytes : Bytes) :
    (d.extendContent number bytes).content number = d.content number ++ bytes := by
  simp [content, extendContent]

/-- The disk with an entry at a path. -/
def setEntry (d : Disk) (path : Path) (entry : DiskEntry) : Disk :=
  { d with entries := d.entries.insert path entry }

/-- The disk with a new file at a path. -/
def addFile (d : Disk) (path : Path) (bytes : Bytes) : Disk :=
  { (d.setContent d.fresh bytes).setEntry path (.file d.fresh) with fresh := d.fresh + 1 }

/-- The disk with directories of the given names, each in the one before, the first in `base`. -/
def addDirectories (d : Disk) (base : Path) : List String → Disk
  | [] => d
  | name :: names =>
    let path := base ++ [name]
    match d.lookup path with
    | none => (d.setEntry path .directory).addDirectories path names
    | some _ => d.addDirectories path names

/-- The disk with other bytes in the file at a path; a file that is not there is new. -/
def alterFile (d : Disk) (path : Path) (f : Bytes → Bytes) : Disk :=
  match d.lookup path with
  | some (.file number) => d.setContent number (f (d.content number))
  | some .directory => d
  | none => d.addFile path (f ByteArray.empty)

/-- The disk without the name at a path. An open file keeps its bytes. -/
def remove (d : Disk) (path : Path) : Disk :=
  { d with entries := d.entries.erase path }

/-! ### Calls -/

/-- Take the wording of a path as it is, or refuse it. -/
def checkWording (path : WrittenPath) : EStateM DiskFault Disk Unit :=
  match wordingFault? path with
  | some fault => throw fault
  | none => return ()

/-- Go through with a call unless a mishap is due. -/
def proceed : EStateM DiskFault Disk Unit := fun d =>
  match d.mishaps with
  | [] => .ok () d
  | none :: rest => .ok () { d with mishaps := rest }
  | some _ :: rest => .error .mishap { d with mishaps := rest }

/-- The file at a path, open for appending. -/
def openExisting (path : Path) : EStateM DiskFault Disk FileNumber := do
  proceed
  match (← get).lookup path with
  | none => throw .notFound
  | some .directory => throw .isDirectory
  | some (.file number) => return number

/-- The file at a path, open for appending; made if it is not there. -/
def openOrCreate (path : Path) : EStateM DiskFault Disk FileNumber := do
  proceed
  let d ← get
  match d.lookup path with
  | some .directory => throw .isDirectory
  | some (.file number) => return number
  | none =>
    set (d.addFile path ByteArray.empty)
    return d.fresh

/-- The file at a path, emptied; made if it is not there. -/
def createEmpty (path : Path) : EStateM DiskFault Disk FileNumber := do
  let number ← openOrCreate path
  modify (·.setContent number ByteArray.empty)
  return number

/-- The bytes of the file at a path; nothing if there is no file. -/
def readFile (path : Path) : EStateM DiskFault Disk (Option Bytes) := do
  proceed
  let d ← get
  match d.lookup path with
  | none => return none
  | some .directory => throw .isDirectory
  | some (.file number) => return some (d.content number)

/-- Cut an open file to a length, or extend it with zero bytes. -/
def setLength (number : FileNumber) (length : Nat) : EStateM DiskFault Disk Unit := do
  proceed
  let d ← get
  let bytes := d.content number
  if length ≤ bytes.size then
    set (d.setContent number (bytes.extract 0 length))
  else
    -- Only a file that grows can meet the size limit.
    match d.sizeLimit with
    | some limit => if limit < length then throw .fileTooLarge
    | none => pure ()
    set (d.setContent number (bytes ++ ⟨Array.replicate (length - bytes.size) 0⟩))

/-- Force the bytes of an open file, or the names in a directory, onto the medium. -/
def sync : EStateM DiskFault Disk Unit := proceed

/-- Give the file at one path another path, in place of what is there. -/
def rename (source target : Path) : EStateM DiskFault Disk Unit := do
  proceed
  let d ← get
  match d.lookup source, d.lookup target with
  | none, _ => throw .notFound
  | _, some .directory => throw .isDirectory
  | some entry, _ => set ((d.remove source).setEntry target entry)

/-- Make a directory below an existing one; one that is there is all right. -/
def makeDirectory (path : Path) : EStateM DiskFault Disk Unit := do
  match (← get).lookup path with
  | some .directory => return ()
  | some (.file _) => throw .alreadyExists
  | none =>
    proceed
    modify (·.setEntry path .directory)

/-- Follow steps from a directory and make the directories on the way. -/
def makeSteps : Path → List PathStep → EStateM DiskFault Disk Path
  | path, [] => return path
  | path, .up :: steps => makeSteps path.dropLast steps
  | path, .down name :: steps => do
    if name.utf8ByteSize > maxNameLength then
      throw .nameTooLong
    makeDirectory (path ++ [name])
    makeSteps (path ++ [name]) steps

/-- The place of a written path, where a directory has to be. -/
def findDirectory (path : WrittenPath) : EStateM DiskFault Disk Path := fun d =>
  match d.resolve path with
  | .error fault => .error fault d
  | .ok place =>
    match d.lookup place with
    | none => .error .notFound d
    | some (.file _) => .error .notDirectory d
    | some .directory => .ok place d

/-- The place of a written path, where a directory is made if there is none, and those above it
too. A path whose last name is `.` speaks of what is in its directory: only those above are made,
and the directory itself has to be there. -/
def makeDirectories (path : WrittenPath) : EStateM DiskFault Disk Path := do
  checkWording path
  let start := (← get).start path
  if path.staysPut then
    let _ ← makeSteps start path.steps.dropLast
    findDirectory path
  else makeSteps start path.steps

/-- How many of a write's bytes reach the file: all unless the size limit or a mishap cuts it. -/
def admitted (d : Disk) (number : FileNumber) (bytes : Bytes) : Nat :=
  match d.sizeLimit with
  | none => bytes.size
  | some limit => min bytes.size (limit - (d.content number).size)

/-- Add bytes at the end of an open file. When the write is cut short, what fits is written; the
answer is how many bytes that were, and why no more. -/
def append (number : FileNumber) (bytes : Bytes) (d : Disk) : Nat × Option DiskFault × Disk :=
  let room := d.admitted number bytes
  let limited : Option DiskFault := if room < bytes.size then some .fileTooLarge else none
  let (count, fault, rest) : Nat × Option DiskFault × List (Option Nat) :=
    match d.mishaps with
    | [] => (room, limited, [])
    | none :: rest => (room, limited, rest)
    | some cut :: rest => (min cut room, some .mishap, rest)
  (count, fault,
    { d.extendContent number (bytes.extract 0 count) with mishaps := rest })

end Disk

end FlatStore
