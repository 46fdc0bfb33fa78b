import FlatStore.Database.Opening
import FlatStore.Proofs.Backend
import FlatStore.Proofs.Disk.Paths
import FlatStore.Proofs.Log.Opening

/-! # Opening a database again

    A database that was closed is opened again with the contents that it had
    (`Opening.run_again`).

    * **The settings file** is not a file of the log, so it is read again as it
      was (`Opening.fileSettings_again`).
    * **The cache** is empty behind every opening, so the database shows what
      its store holds (`Opening.run_shows`).
-/

namespace FlatStore

/-! ### Reading files again -/

namespace Disk

variable {d d' : Disk} {path place directory : Path}

theorem readFile_of_calm (calm : d.Calm) (file : d.lookup path ≠ some .directory) :
    readFile path d = .ok (d.file? path) d := by
  have go : proceed d = .ok () d := by
    have nothing : d.mishaps = [] := calm
    unfold proceed
    rw [nothing]
  unfold readFile file?
  rw [EStateM.bind_of_ok go, EStateM.get_bind]
  cases at_path : d.lookup path with
  | none => rfl
  | some entry =>
    cases entry with
    | directory => exact absurd at_path file
    | file number => rfl

/-- A written path leads to the same place as long as only files of the log have changed. -/
theorem Beside.resolve_iff (h : Beside directory d d') (location : WrittenPath) :
    d'.resolve location = .ok place ↔ d.resolve location = .ok place :=
  ⟨resolve_again (fun p => (h.directories p).1) h.workingDirectory.symm,
    resolve_again h.directoriesIn h.workingDirectory⟩

end Disk

/-! ### Settings -/

theorem Cache.value?_of_emptyCache {s : Settings} {cache : Cache} (h : s.emptyCache = .ok cache)
    (key : String) : cache.value? key = none := by
  unfold Settings.emptyCache at h
  cases policy : s.cache with
  | perpetual =>
    rw [policy] at h
    cases h
    exact Std.TreeMap.getElem?_emptyc
  | lru capacity =>
    simp only [policy, Lru.ofCapacity?] at h
    by_cases positive : 0 < capacity
    · rw [dif_pos positive] at h
      cases h
      exact Std.TreeMap.getElem?_emptyc
    · rw [dif_neg positive] at h
      cases h

/-- Settings that pass the check have a cache. -/
theorem Settings.emptyCache_of_validate {s : Settings} (h : s.validate = .ok ()) :
    ∃ cache, s.emptyCache = .ok cache := by
  unfold emptyCache
  cases policy : s.cache with
  | perpetual => exact ⟨_, rfl⟩
  | lru capacity =>
    have positive : 0 < capacity := by
      refine Nat.pos_of_ne_zero ?_
      rintro rfl
      rw [validate, if_pos policy] at h
      cases h
    simp only [Lru.ofCapacity?, dif_pos positive]
    exact ⟨_, rfl⟩

namespace Opening

variable {o : Opening} {d d' d₁ : Disk} {location : WrittenPath} {file : Option Settings}

/-- The settings that the content of a settings file stands for, if there is such a file. -/
def decoded : Option Bytes → Except Error (Option Settings)
  | none => .ok none
  | some content => (settingsOfFile content).map some

theorem fileSettings_of_unresolved {fault : DiskFault}
    (h : d.resolve (location.join settingsFileName) = .error fault) :
    fileSettings location d = .ok none d := by
  unfold fileSettings
  rw [h]

theorem fileSettings_of_read {path : Path} {found : Option Bytes}
    (resolved : d.resolve (location.join settingsFileName) = .ok path)
    (read : Disk.readFile path d = .ok found d₁) (decodes : decoded found = .ok file) :
    fileSettings location d = .ok file d₁ := by
  unfold fileSettings
  simp only [resolved, read]
  cases found with
  | none =>
    cases decodes
    rfl
  | some content =>
    simp only [decoded] at decodes ⊢
    cases settings : settingsOfFile content with
    | error e =>
      rw [settings] at decodes
      cases decodes
    | ok _ =>
      rw [settings] at decodes
      cases decodes
      rfl

/-- Settings come from a path that leads nowhere, or from the file at its end. -/
theorem fileSettings_eq_ok (h : fileSettings location d = .ok file d₁) :
    (file = none ∧ d₁ = d ∧
      ∃ fault, d.resolve (location.join settingsFileName) = .error fault) ∨
    ∃ path found, d.resolve (location.join settingsFileName) = .ok path ∧
      Disk.readFile path d = .ok found d₁ ∧ decoded found = .ok file := by
  unfold fileSettings at h
  cases resolved : d.resolve (location.join settingsFileName) with
  | error fault =>
    rw [resolved] at h
    cases h
    exact Or.inl ⟨rfl, rfl, fault, rfl⟩
  | ok path =>
    simp only [resolved] at h
    cases read : Disk.readFile path d with
    | error fault d₂ =>
      rw [read] at h
      cases h
    | ok found d₂ =>
      rw [read] at h
      cases found with
      | none =>
        cases h
        exact Or.inr ⟨path, none, rfl, read, rfl⟩
      | some content =>
        simp only at h
        cases settings : settingsOfFile content with
        | error e =>
          rw [settings] at h
          cases h
        | ok s =>
          rw [settings] at h
          cases h
          refine Or.inr ⟨path, some content, rfl, read, ?_⟩
          rw [decoded, settings]
          rfl

/-- Reading the settings file leaves the disk as it is. -/
theorem same_of_fileSettings (h : fileSettings location d = .ok file d₁) : Disk.Same d d₁ := by
  rcases fileSettings_eq_ok h with ⟨-, rfl, -⟩ | ⟨path, found, -, read, -⟩
  · exact .refl _ _ d₁
  · exact ((Disk.meets_readFile d path).of_ok read).2.2

/-- As long as only files of a log have changed, the settings file is read again as it was. -/
theorem fileSettings_again {directory : Path} (beside : Disk.Beside directory d d')
    (calm : d.Calm) (h : fileSettings location d = .ok file d₁) :
    fileSettings location d' = .ok file d' := by
  rcases fileSettings_eq_ok h with
    ⟨rfl, -, fault, resolved⟩ | ⟨place, found, resolved, read, decodes⟩
  · -- What was not found is not found now: finding it would find it before, too.
    cases resolved' : d'.resolve (location.join settingsFileName) with
    | error fault' => exact fileSettings_of_unresolved resolved'
    | ok place =>
      rw [(beside.resolve_iff _).1 resolved'] at resolved
      cases resolved
  · obtain ⟨parent, rfl⟩ := Disk.resolve_join (by decide) rfl resolved
    -- The last name of the place is that of the settings file, so it is none of the log's.
    have apart : ∀ name, name ≠ settingsFileName →
        parent ++ [settingsFileName] ≠ directory ++ [name] := by
      intro name other same
      exact other (List.singleton_inj.1 (List.append_inj_right' same rfl)).symm
    have not_log := apart Log.fileName (by decide)
    have not_side := apart Log.sideName (by decide)
    have readable := ((Disk.meets_readFile d (parent ++ [settingsFileName])).of_ok read).2.1
    rw [Disk.readFile_of_calm calm readable] at read
    have read' : Disk.readFile (parent ++ [settingsFileName]) d' = .ok found d' := by
      rw [Disk.readFile_of_calm (beside.calm calm) (by rwa [beside.lookup _ not_log not_side]),
        beside.file? _ not_log not_side]
      cases read
      rfl
    exact fileSettings_of_read ((beside.resolve_iff _).2 resolved) read' decodes

/-! ### What an opening comes to -/

variable {settings : Settings} {log? : Option Log} {d₂ : Disk} {db : Database}

theorem prepare_of_memory (place : o.location = .ok none) (d : Disk) :
    o.prepare d =
      match (o.combine none).validate with
      | .error fault => .error (.settings fault) d
      | .ok () => .ok (o.combine none, none) d := by
  unfold prepare
  rw [place]
  cases valid : (o.combine none).validate <;> simp [valid] <;> rfl

/-- With the settings read and checked, all that is left is to open the log. -/
theorem prepare_of_valid (place : o.location = .ok (some location))
    (read : fileSettings location d = .ok file d₁) (valid : (o.combine file).validate = .ok ()) :
    o.prepare d =
      match Log.openAt location (o.combine file).durability d₁ with
      | .ok log d₂ => .ok (o.combine file, some log) d₂
      | .error fault d₂ => .error (.io fault.message) d₂ := by
  unfold prepare
  rw [place]
  simp only
  rw [EStateM.bind_of_ok read]
  simp only [valid]
  cases opened : Log.openAt location (o.combine file).durability d₁ with
  | ok log d₂ =>
    rw [EStateM.bind_of_ok (LogStore.reporting_of_ok opened)]
    rfl
  | error fault d₂ =>
    refine EStateM.bind_of_error ?_
    unfold LogStore.reporting
    rw [opened]

theorem prepare_eq_ok (place : o.location = .ok (some location))
    (h : o.prepare d = .ok (settings, log?) d₂) :
    ∃ file d₁ log, log? = some log ∧ fileSettings location d = .ok file d₁ ∧
      Log.openAt location (o.combine file).durability d₁ = .ok log d₂ := by
  -- Each step before the log is opened would have ended the preparation.
  cases read : fileSettings location d with
  | error e d₁ =>
    unfold prepare at h
    rw [place] at h
    simp only at h
    rw [EStateM.bind_of_error read] at h
    cases h
  | ok file d₁ =>
    cases valid : (o.combine file).validate with
    | error fault =>
      unfold prepare at h
      rw [place] at h
      simp only at h
      rw [EStateM.bind_of_ok read] at h
      simp only [valid] at h
      cases h
    | ok _ =>
      rw [prepare_of_valid place read valid] at h
      cases opened : Log.openAt location (o.combine file).durability d₁ with
      | error fault d₃ =>
        rw [opened] at h
        cases h
      | ok log d₃ =>
        rw [opened] at h
        cases h
        exact ⟨file, d₁, log, rfl, rfl, opened⟩

/-- A database that was opened has nothing in its cache, and its store is what was prepared. -/
theorem run_eq_ok (h : o.run d = .ok db) :
    ∃ settings log? d₂, o.prepare d = .ok (settings, log?) d₂ ∧
      (∀ key, db.fields.cache.value? key = none) ∧
      db.fields.store =
        match log? with
        | none => .memory .empty d₂
        | some log => .log ⟨d₂, log⟩ := by
  unfold run at h
  cases prepared : o.prepare d with
  | error e d₁ =>
    rw [prepared] at h
    cases h
  | ok both d₂ =>
    obtain ⟨settings, log?⟩ := both
    simp only [prepared] at h
    cases made : settings.emptyCache with
    | error fault =>
      rw [made] at h
      cases h
    | ok cache =>
      simp only [made] at h
      cases h
      refine ⟨settings, log?, d₂, rfl, Cache.value?_of_emptyCache made, ?_⟩
      cases log? <;> rfl

/-- In memory a database starts without contents. -/
theorem run_in_memory (place : o.location = .ok none) (h : o.run d = .ok db) :
    (∀ key, db.fields.cache.value? key = none) ∧ db.fields.store = .memory .empty d := by
  obtain ⟨settings, log?, d₂, prepared, cached, store⟩ := run_eq_ok h
  rw [prepare_of_memory place] at prepared
  refine ⟨cached, ?_⟩
  cases valid : (o.combine none).validate with
  | error fault =>
    rw [valid] at prepared
    cases prepared
  | ok _ =>
    rw [valid] at prepared
    cases prepared
    exact store

/-- In a directory a database starts with the log that was opened there. -/
theorem run_on_disk (place : o.location = .ok (some location)) (h : o.run d = .ok db) :
    (∀ key, db.fields.cache.value? key = none) ∧
      ∃ file d₁ log d₂, fileSettings location d = .ok file d₁ ∧
        Log.openAt location (o.combine file).durability d₁ = .ok log d₂ ∧
        db.fields.store = .log ⟨d₂, log⟩ := by
  obtain ⟨settings, log?, d₂, prepared, cached, store⟩ := run_eq_ok h
  obtain ⟨file, d₁, log, rfl, read, opened⟩ := prepare_eq_ok place prepared
  exact ⟨cached, file, d₁, log, d₂, read, opened, store⟩

/-- Where the settings are sound and the log can be opened, so can the database. -/
theorem run_of_valid (place : o.location = .ok (some location))
    (read : fileSettings location d = .ok file d₁) (valid : (o.combine file).validate = .ok ())
    {log : Log} (opened : Log.openAt location (o.combine file).durability d₁ = .ok log d₂) :
    ∃ db, o.run d = .ok db ∧ (∀ key, db.fields.cache.value? key = none) ∧
      db.fields.store = .log ⟨d₂, log⟩ := by
  obtain ⟨cache, made⟩ := Settings.emptyCache_of_validate valid
  have prepared := prepare_of_valid place read valid
  rw [opened] at prepared
  unfold run
  rw [prepared]
  simp only [made]
  exact ⟨_, rfl, Cache.value?_of_emptyCache made, rfl⟩

/-- On an empty disk a directory can be opened. The log in it is empty, and there is no settings
file. -/
theorem run_in_new_directory :
    ∃ (db : Database) (d : Disk) (log : Log), ({ path := some ⟨"db"⟩ } : Opening).run {} = .ok db ∧
      db.fields.store = .log ⟨d, log⟩ ∧ db.keyCount = 0 ∧ log.location = ⟨"db"⟩ ∧
      fileSettings ⟨"db"⟩ d = .ok none d := by
  have made : Disk.makeDirectories ⟨"db"⟩ {} = .ok ["db"] _ := rfl
  obtain ⟨log, d, opened, beside⟩ :=
    Log.openAt_succeeds Disk.sound_empty rfl made (by decide) (by decide) default
  obtain ⟨-, index, location, -⟩ := (Log.meets_openAt Disk.sound_empty _ _).of_ok opened
  obtain ⟨db, run, -, stored⟩ := run_of_valid
    (show ({ path := some ⟨"db"⟩ } : Opening).location = .ok (some ⟨"db"⟩) from rfl)
    (show fileSettings ⟨"db"⟩ {} = .ok none {} from rfl) rfl opened
  refine ⟨db, d, log, run, stored, ?_, location, ?_⟩
  · show db.fields.store.size = 0
    rw [stored]
    show log.index.size = 0
    rw [index, Log.contentIn_empty, Record.scan_empty]
    rfl
  · exact fileSettings_again beside rfl (show fileSettings ⟨"db"⟩ _ = .ok none _ from rfl)

end Opening

/-! ### Opening again -/

/-- The database shows these contents, and its store comes from the other one. -/
def Database.Shows (origin : Backend) (db : Database) (c : Contents) : Prop :=
  FieldStore.Shows (Backend.view origin) db.fields c

/-- With nothing in its cache a database shows what its store holds. -/
theorem Database.shows_of_uncached {origin : Backend} {db : Database}
    (later : origin.Later db.fields.store) (cached : ∀ key, db.fields.cache.value? key = none) :
    db.Shows origin db.fields.store.contents := by
  refine ⟨later, rfl, ?_⟩
  intro key value hv
  rw [cached] at hv
  cases hv

namespace Opening

variable {o : Opening} {d : Disk} {db : Database} {origin s : LogStore}

/-- A database that was opened in a directory on a quiet disk shows what its log holds. -/
theorem run_shows (sound : d.Sound) (quiet : d.Quiet) (h : o.run d = .ok db)
    (stored : db.fields.store = .log s) :
    s.disk.Quiet ∧ db.Shows (.log s) db.fields.store.contents := by
  cases place : o.location with
  | error fault =>
    obtain ⟨settings, log?, d₂, prepared, -⟩ := run_eq_ok h
    unfold prepare at prepared
    rw [place] at prepared
    cases prepared
  | ok location? =>
    cases location? with
    | none =>
      rw [(run_in_memory place h).2] at stored
      cases stored
    | some location =>
      obtain ⟨cached, file, d₁, log, d₂, read, opened, store⟩ := run_on_disk place h
      -- Reading the settings has left the disk as it was, so the log was opened on a sound one.
      have same := same_of_fileSettings read
      obtain ⟨intact, -, -, kept⟩ := (Log.meets_openAt (sound.keep same) location _).of_ok opened
      have quiet₂ : d₂.Quiet := kept (same.quiet quiet)
      rw [store] at stored
      cases stored
      refine ⟨quiet₂, Database.shows_of_uncached ?_ cached⟩
      rw [store]
      exact .log ⟨quiet₂, .refl _, _, intact⟩

/-- The opening can follow on a log: it names the directory of the log, the settings file there can
be read, and with it the settings pass the check. -/
def Follows (o : Opening) (s : LogStore) : Prop :=
  o.location = .ok (some s.log.location) ∧
    ∃ file d', fileSettings s.log.location s.disk = .ok file d' ∧ (o.combine file).validate = .ok ()

/-- Behind a store that was let go of, the database opens again and shows what that store held. -/
theorem run_again (follows : o.Follows origin) (calm : origin.disk.Calm)
    (later : origin.Later s) :
    ∃ db, o.run s.release = .ok db ∧ db.Shows (.log origin) (Backend.log s).contents := by
  obtain ⟨place, file, d', read, valid⟩ := follows
  obtain ⟨records, intact⟩ := later.intact
  have read' := fileSettings_again later.stays.beside calm read
  have reopened := intact.meets_reopen (o.combine file).durability
  rw [intact.release, later.stays.location] at reopened
  rw [intact.release]
  cases opened : Log.openAt origin.log.location (o.combine file).durability s.disk with
  | error fault d₂ => exact absurd later.quiet.1 (reopened.of_error opened)
  | ok log d₂ =>
    obtain ⟨intact', index, -, stays⟩ := reopened.of_ok opened
    obtain ⟨db, run, cached, store⟩ := run_of_valid place read' valid opened
    -- The cache is empty, and the index was read back from the records of the log.
    have shows_store : db.Shows (.log origin) db.fields.store.contents := by
      refine Database.shows_of_uncached ?_ cached
      rw [store]
      exact .log (later.then stays intact')
    have contents : db.fields.store.contents = (Backend.log s).contents := by
      rw [store]
      funext key
      show log.index[key]? = s.log.index[key]?
      rw [index, intact.index.getElem?_eq]
    rw [contents] at shows_store
    exact ⟨db, run, shows_store⟩

end Opening

end FlatStore
