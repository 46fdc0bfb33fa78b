import FlatStore.Database

/-! # Opening a database

    A database is opened in a directory or in memory. Its settings come from
    three places, later ones winning:

    1. the settings file in the directory, if there is one;
    2. settings given as a whole;
    3. a cache policy, a clear threshold, a durability mode given one by one.

    The file is read and has to be sound even where nothing of it is used. The
    settings are checked before the directory is made or the log is touched.
-/

namespace FlatStore

/-- How to open a database. -/
structure Opening where
  path : Option WrittenPath := none
  /-- Whether to keep everything in memory; the path is then of no account. -/
  ephemeral : Bool := false
  settings : Option Settings := none
  cache : Option CachePolicy := none
  clearThreshold : Option Nat := none
  durability : Option Durability := none

namespace Opening

/-- The name of the settings file in the directory of a database. -/
def settingsFileName : String := "chatkv.toml"

/-- The directory to open, if the database is to be on disk. -/
def location (o : Opening) : Except SettingsFault (Option WrittenPath) :=
  if o.ephemeral then .ok none
  else
    match o.path with
    | some path => .ok (some path)
    | none => .error .noPath

/-- The settings in a file. -/
def settingsOfFile (content : Bytes) : Except Error Settings :=
  match Utf8.decode content with
  | .error _ => .error (.io DiskFault.notText.message)
  | .ok text => (Settings.ofDocument text).mapError .settings

/-- The settings in the file of a directory, if there is such a file. -/
def fileSettings (directory : WrittenPath) : EStateM Error Disk (Option Settings) := fun d =>
  match d.resolve (directory.join settingsFileName) with
  | .error _ => .ok none d
  | .ok path =>
    match Disk.readFile path d with
    | .error fault d => .error (.io fault.message) d
    | .ok none d => .ok none d
    | .ok (some content) d =>
      match settingsOfFile content with
      | .error e => .error e d
      | .ok settings => .ok (some settings) d

/-- The settings to open with, when the file of the directory holds these. -/
def combine (o : Opening) (file : Option Settings) : Settings :=
  let base := (o.settings.or file).getD {}
  { cache := o.cache.getD base.cache
    clearThreshold := o.clearThreshold.getD base.clearThreshold
    durability := o.durability.getD base.durability }

/-- The settings and the log to open with, once everything has been checked. -/
def prepare (o : Opening) : EStateM Error Disk (Settings × Option Log) := do
  match o.location with
  | .error fault => throw (.settings fault)
  | .ok location =>
    let file ←
      match location with
      | none => pure none
      | some directory => fileSettings directory
    let settings := o.combine file
    match settings.validate with
    | .error fault => throw (.settings fault)
    | .ok () =>
      match location with
      | none => return (settings, none)
      | some directory =>
        let log ← LogStore.reporting (Log.openAt directory settings.durability)
        return (settings, some log)

/-- Open the database, or say why not and what the disk is left as. -/
def run (o : Opening) (disk : Disk) : Except (Error × Disk) Database :=
  match o.prepare disk with
  | .error e disk => .error (e, disk)
  | .ok (settings, log) disk =>
    match settings.emptyCache with
    | .error fault => .error (.settings fault, disk)
    | .ok cache =>
      let store : Backend :=
        match log with
        | none => .memory .empty disk
        | some log => .log { disk, log }
      .ok { fields := { store, cache, clearThreshold := settings.clearThreshold }, settings }

end Opening

end FlatStore
