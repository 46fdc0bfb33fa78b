import FlatStore.Disk.Appender
import FlatStore.Durability
import FlatStore.Record
import FlatStore.Store

/-! # Log stores

    A durable byte store is one file of records in a directory. Every write
    appends a record, and the last record of a key holds its value; an index in
    memory maps each key to its value, so reads never touch the disk.

    * **Opening** reads the records up to the first place where there is none
      and cuts the file back to them.
    * **A failed append** is rolled back: the file is cut back to its
      acknowledged length and what waits in the buffer is dropped, so that no
      later record lands behind a torn one.
    * **Compaction** writes one record for each key into a side file and
      renames it over the log.
-/

namespace FlatStore

/-! ### Reading a log -/

/-- What opening a log found. -/
structure Replay where
  /-- Records taken into the index. -/
  records : Nat := 0
  /-- Bytes of those records. -/
  validBytes : Nat := 0
  /-- Bytes behind them. -/
  discardedBytes : Nat := 0
  deriving DecidableEq, Repr

/-- The value of each key. -/
abbrev LogIndex := Std.TreeMap Bytes Bytes Bytes.compare

namespace LogIndex

/-- The index after one more record. -/
def apply (index : LogIndex) (r : Record) : LogIndex :=
  index.insert r.key r.value

/-- The index of records written in this order. -/
def ofRecords (records : List Record) : LogIndex :=
  records.foldl apply ∅

/-- One record for each key. -/
def records (index : LogIndex) : List Record :=
  index.toList.map fun (key, value) => ⟨key, value⟩

end LogIndex

/-- The index and the figures of a log file. -/
def Replay.ofFile (content : Bytes) : LogIndex × Replay :=
  let scan := Record.scan content
  (LogIndex.ofRecords scan.records,
    { records := scan.records.length
      validBytes := scan.length
      discardedBytes := content.size - scan.length })

/-! ### Open logs -/

/-- An open log. -/
structure Log where
  /-- The directory as it was named. -/
  location : WrittenPath
  directory : Path
  mode : Durability
  replay : Replay
  writer : Appender
  index : LogIndex
  /-- The length of the file up to the last acknowledged record. -/
  length : Nat
  /-- Acknowledged writes since the file was last synced. -/
  unsynced : Nat := 0

namespace Log

/-- The name of the log file in its directory. -/
def fileName : String := "data.log"

/-- The name of the side file in which a compacted log is built. -/
def sideName : String := fileName ++ ".compact"

/-- The path of the log file. -/
def path (log : Log) : Path := log.directory ++ [fileName]

/-- The path of the side file. -/
def sidePath (log : Log) : Path := log.directory ++ [sideName]

/-- Open or make the log in a directory, which exists and was named so. -/
def openIn (location : WrittenPath) (directory : Path) (mode : Durability) :
    EStateM DiskFault Disk Log := do
  let path := directory ++ [fileName]
  let (index, replay) := Replay.ofFile ((← Disk.readFile path).getD ByteArray.empty)
  -- What stands behind the records would hide every record that is appended behind it.
  if replay.discardedBytes > 0 then
    Disk.setLength (← Disk.openExisting path) replay.validBytes
    Disk.sync
  let file ← Disk.openOrCreate path
  return {
    location, directory, mode, replay, index, writer := { file }, length := replay.validBytes }

/-- Open or make the log in a directory, which is made if it is not there. -/
def openAt (location : WrittenPath) (mode : Durability) : EStateM DiskFault Disk Log := do
  let directory ← Disk.makeDirectories location
  Disk.checkWording (location.join fileName)
  openIn location directory mode

end Log

/-- A log and the disk that it lies on. -/
structure LogStore where
  disk : Disk
  log : Log

namespace LogStore

/-- A call on the disk of a log. -/
def onDisk {ε α : Type} (call : EStateM ε Disk α) : EStateM ε LogStore α := fun s =>
  match call s.disk with
  | .ok value disk => .ok value { s with disk }
  | .error e disk => .error e { s with disk }

/-- A use of the appender of a log. -/
def onWriter (use : Appender → Disk → Option DiskFault × Appender × Disk) :
    EStateM DiskFault LogStore Unit := fun s =>
  match use s.log.writer s.disk with
  | (none, writer, disk) => .ok () { s with disk, log.writer := writer }
  | (some fault, writer, disk) => .error fault { s with disk, log.writer := writer }

/-- Report a fault of the disk as an error. -/
def reporting {σ α : Type} (call : EStateM DiskFault σ α) : EStateM Error σ α := fun s =>
  match call s with
  | .ok value s => .ok value s
  | .error fault s => .error (.io fault.message) s

/-! ### Writing -/

/-- Bring a written-out record to the file, and sync if it is time to. Says whether it synced. -/
def appendImage (image : Bytes) : EStateM DiskFault LogStore Bool := do
  onWriter (·.write image)
  onWriter (·.flush)
  let log := (← get).log
  let mustSync := log.mode.mustSync (log.unsynced + 1)
  if mustSync then
    onDisk Disk.sync
  return mustSync

/-- Drop what waits in the buffer and cut the file back to its acknowledged length. -/
def discardPartial : EStateM DiskFault LogStore Unit := do
  let log := (← get).log
  let file ← onDisk (Disk.openExisting log.path)
  modify fun s => { s with log.writer := { file } }
  onDisk (Disk.setLength file log.length)

/-- Count and index a record that reached the file. -/
def acknowledge (r : Record) (synced : Bool) (s : LogStore) : LogStore :=
  { s with
    log.length := s.log.length + r.encodedLength
    log.unsynced := if synced then 0 else s.log.unsynced + 1
    log.index := s.log.index.apply r }

/-- Append a record that is within the limits. -/
def appendRecord (r : Record) (image : Bytes) : EStateM DiskFault LogStore Unit := fun s =>
  match appendImage image s with
  | .ok synced s => .ok () (s.acknowledge r synced)
  | .error fault s =>
    -- The fault of the append is told, unless the rollback meets one of its own.
    match discardPartial s with
    | .ok () s => .error fault s
    | .error fault s => .error fault s

/-- Write a value. -/
def write (key value : Bytes) : EStateM Error LogStore Unit :=
  let r : Record := ⟨key, value⟩
  match r.encode with
  | .error fault => throw (.serialization fault.message)
  | .ok image => reporting (appendRecord r image)

/-- Bring everything that was written onto the medium. -/
def flush : EStateM Error LogStore Unit :=
  reporting do
    onWriter (·.flush)
    onDisk Disk.sync
    modify fun s => { s with log.unsynced := 0 }

instance : ByteStore LogStore where
  read key := fun s => .ok (s.log.index[key]?) s
  write := write
  flush := flush

/-! ### Compaction -/

/-- Append records one after the other. -/
def writeAll (a : Appender) : List Record → Disk → Option Error × Appender × Disk
  | [], d => (none, a, d)
  | r :: rest, d =>
    match r.encode with
    | .error fault => (some (.serialization fault.message), a, d)
    | .ok image =>
      match a.write image d with
      | (some fault, a, d) => (some (.io fault.message), a, d)
      | (none, a, d) => writeAll a rest d

/-- Fill an open file with records. -/
def fill (file : FileNumber) (records : List Record) : EStateM Error Disk Unit := fun d =>
  match writeAll { file } records d with
  | (some e, _, d) => .error e d
  | (none, a, d) =>
    match a.flush d with
    | (some fault, _, d) => .error (.io fault.message) d
    | (none, _, d) => .ok () d

/-- Compact the log to one record for each key. Gives the bytes saved. -/
def compact : EStateM Error LogStore Nat := do
  reporting (onWriter (·.flush))
  let log := (← get).log
  let records := log.index.records
  -- Up to the rename the log file is not touched.
  reporting (onDisk (Disk.checkWording (log.location.join Log.sideName)))
  let side ← reporting (onDisk (Disk.createEmpty log.sidePath))
  onDisk (fill side records)
  reporting (onDisk Disk.sync)
  reporting (onDisk (Disk.rename log.sidePath log.path))
  -- The appender still holds the old file, which no path leads to any more.
  reporting (onDisk Disk.sync)
  let file ← reporting (onDisk (Disk.openExisting log.path))
  let length := Record.totalLength records
  modify fun s =>
    { s with log := { log with writer := { file }, unsynced := 0, length } }
  return log.length - length

/-- Let go of the log. What waits in the buffer still goes to the file if it can. -/
def release (s : LogStore) : Disk :=
  (s.log.writer.flush s.disk).2.2

end LogStore

end FlatStore
