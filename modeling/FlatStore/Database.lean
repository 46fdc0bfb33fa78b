import FlatStore.FieldStore
import FlatStore.Log
import FlatStore.Request
import FlatStore.Settings
import FlatStore.Store.Memory

/-! # Databases

    A database is one byte store with its cached fields. The store is a log in
    a directory, or lives in memory and is lost when the database is released.

    * **Requests** run as scripts on the fields; they are the same for both
      kinds of store.
    * **Compaction** reaches past the fields to the log; in memory there is
      nothing to compact.
    * **Releasing** gives back the disk; closing flushes first.
-/

namespace FlatStore

/-! ### Where the bytes are -/

/-- The byte store of a database, and the disk beside it. -/
inductive Backend where
  | memory (store : Memory) (disk : Disk)
  | log (store : LogStore)

namespace Backend

variable {ε α : Type}

/-- Use whichever store it is. -/
def use (inMemory : EStateM ε Memory α) (inLog : EStateM ε LogStore α) : EStateM ε Backend α
  | .memory store disk =>
    match inMemory store with
    | .ok value store => .ok value (.memory store disk)
    | .error e store => .error e (.memory store disk)
  | .log store =>
    match inLog store with
    | .ok value store => .ok value (.log store)
    | .error e store => .error e (.log store)

instance : ByteStore Backend where
  read key := use (ByteStore.read key) (ByteStore.read key)
  write key value := use (ByteStore.write key value) (ByteStore.write key value)
  flush := use ByteStore.flush ByteStore.flush

/-- Compact the log to one record for each key. Gives the bytes saved, none in memory. -/
def compact : EStateM Error Backend Nat := use (pure 0) LogStore.compact

/-- The number of keys. -/
def size : Backend → Nat
  | .memory store _ => store.size
  | .log store => store.log.index.size

/-- The disk as it is while the store is in use. -/
def disk : Backend → Disk
  | .memory _ disk => disk
  | .log store => store.disk

/-- The store with its disk changed from outside. -/
def onDisk (f : Disk → Disk) : Backend → Backend
  | .memory store disk => .memory store (f disk)
  | .log store => .log { store with disk := f store.disk }

/-- The disk once the store is let go of. -/
def release : Backend → Disk
  | .memory _ disk => disk
  | .log store => store.release

/-- The durability mode of a log. -/
def durability? : Backend → Option Durability
  | .memory .. => none
  | .log store => some store.log.mode

/-- The directory of a log. -/
def location? : Backend → Option WrittenPath
  | .memory .. => none
  | .log store => some store.log.location.trimmed

end Backend

/-! ### Databases -/

/-- An open database. -/
structure Database where
  fields : FieldStore Backend
  /-- What it was opened with. -/
  settings : Settings

namespace Database

variable {ε α : Type}

/-- Use the cached fields. -/
def onFields (call : EStateM ε (FieldStore Backend) α) : EStateM ε Database α := fun db =>
  match call db.fields with
  | .ok value fields => .ok value { db with fields }
  | .error e fields => .error e { db with fields }

/-- Use the byte store behind the fields. -/
def onBackend (call : EStateM ε Backend α) : EStateM ε Database α := fun db =>
  match call db.fields.store with
  | .ok value store => .ok value { db with fields.store := store }
  | .error e store => .error e { db with fields.store := store }

/-- Run a script on the fields. -/
def perform (s : Script α) : EStateM Failure Database α := onFields (FieldStore.perform s)

/-- Bring everything that was written onto the medium. -/
def flush : EStateM Error Database Unit := onFields FieldStore.flush

/-- Compact the log to one record for each key. Gives the bytes saved. -/
def compact : EStateM Error Database Nat := onBackend Backend.compact

/-- Do what a command says. -/
def execute : Action → EStateM Failure Database Output
  | .request request => perform request.script
  | .compact => fun db =>
    match compact db with
    | .ok saved db => .ok (.integer (signed saved)) db
    | .error e db => .error (.error e) db

/-- The directory of its log. -/
def location (db : Database) : Option WrittenPath := db.fields.store.location?

/-- Whether nothing of it is on disk. -/
def isEphemeral (db : Database) : Bool := db.location.isNone

/-- The number of keys. -/
def keyCount (db : Database) : Nat := db.fields.store.size

/-- The durability mode of its log. -/
def durability? (db : Database) : Option Durability := db.fields.store.durability?

/-- Let go of the database. -/
def release (db : Database) : Disk := db.fields.store.release

/-- Flush the database, then let go of it. -/
def close (db : Database) : Except Error Unit × Disk :=
  match flush db with
  | .ok () db => (.ok (), db.release)
  | .error e db => (.error e, db.release)

/-- The database in words. -/
def describe (db : Database) : String :=
  let path :=
    match db.location with
    | none => "None"
    | some location => "Some(" ++ Text.quoted location.text ++ ")"
  "ChatKv \x7b path: " ++ path ++ ", config: " ++ db.settings.describe ++ " \x7d"

end Database

end FlatStore
