import FlatStore.Log
import FlatStore.Proofs.Disk.Appender
import FlatStore.Proofs.Disk.Directories
import FlatStore.Proofs.Record
import Mathlib.Data.List.Induction
import Mathlib.Data.List.Nodup
import Mathlib.Data.List.Perm.Subperm

/-! # Logs that are in step

    Of an open log, the file, the index, the length and the buffer are in step
    (`LogStore.Intact`): the file is a row of written records, the index is
    the map that they make, the length is that of the file, and nothing waits
    in the buffer.

    Besides its two files a log leaves everything on the disk as it is
    (`Disk.Beside`).
-/

namespace FlatStore

/-! ### The index -/

namespace LogIndex

theorem getElem?_apply (index : LogIndex) (r : Record) (key : Bytes) :
    (index.apply r)[key]? = if key = r.key then some r.value else index[key]? := by
  rw [apply, Std.TreeMap.getElem?_insert]
  by_cases same : key = r.key
  · subst same
    simp
  · have other : Bytes.compare r.key key ≠ .eq := fun he =>
      same (Std.LawfulEqCmp.eq_of_compare he).symm
    rw [if_neg other, if_neg same]

theorem apply_equiv {index index' : LogIndex} (h : index.Equiv index') (r : Record) :
    (index.apply r).Equiv (index'.apply r) :=
  h.insert r.key r.value

theorem foldl_apply_equiv {index index' : LogIndex} (h : index.Equiv index')
    (records : List Record) : (records.foldl apply index).Equiv (records.foldl apply index') := by
  induction records generalizing index index' with
  | nil => exact h
  | cons r rest ih => exact ih (apply_equiv h r)

theorem ofRecords_concat (records : List Record) (r : Record) :
    ofRecords (records ++ [r]) = (ofRecords records).apply r := by
  rw [ofRecords, List.foldl_append]
  rfl

/-- What an index holds was in one of the records. -/
theorem mem_of_getElem? {records : List Record} {key value : Bytes}
    (h : (ofRecords records)[key]? = some value) : (⟨key, value⟩ : Record) ∈ records := by
  -- From the end: the last record wins under its key.
  induction records using List.reverseRecOn with
  | nil => simp [ofRecords] at h
  | append_singleton records r ih =>
    rw [ofRecords_concat, getElem?_apply] at h
    by_cases same : key = r.key
    · rw [if_pos same] at h
      rw [same, ← Option.some.inj h]
      exact List.mem_append_right records List.mem_cons_self
    · rw [if_neg same] at h
      exact List.mem_append_left _ (ih h)

/-- A key of one of the records is in the index. -/
theorem exists_of_mem {records : List Record} {r : Record} (h : r ∈ records) :
    ∃ value, (ofRecords records)[r.key]? = some value := by
  induction records using List.reverseRecOn with
  | nil => cases h
  | append_singleton records last ih =>
    rw [ofRecords_concat, getElem?_apply]
    by_cases same : r.key = last.key
    · exact ⟨last.value, if_pos same⟩
    · rw [if_neg same]
      rcases List.mem_append.1 h with before | here
      · exact ih before
      · exact absurd (congrArg Record.key (List.mem_singleton.1 here)) same

/-- The records are one for each key of the index, with its value, in any order. -/
structure OnePerKey (index : LogIndex) (records : List Record) : Prop where
  distinct : (records.map Record.key).Nodup
  held : ∀ r : Record, r ∈ records ↔ index[r.key]? = some r.value

theorem onePerKey_records (index : LogIndex) : index.OnePerKey index.records where
  distinct := by
    have keys : index.records.map Record.key = index.keys := by
      rw [records, List.map_map, ← Std.TreeMap.map_fst_toList_eq_keys]
      rfl
    rw [keys]
    exact Std.TreeMap.nodup_keys
  held r := by
    rw [← Std.TreeMap.mem_toList_iff_getElem?_eq_some, records, List.mem_map]
    constructor
    · rintro ⟨entry, mem, rfl⟩
      exact mem
    · intro mem
      exact ⟨(r.key, r.value), mem, rfl⟩

variable {index index' : LogIndex} {rs rs' : List Record}

theorem OnePerKey.congr (h : index.OnePerKey rs) (same : index.Equiv index') :
    index'.OnePerKey rs where
  distinct := h.distinct
  held r := by rw [h.held, same.getElem?_eq]

/-- One record for each key makes the same index again, in whichever order. -/
theorem OnePerKey.equiv (h : index.OnePerKey rs) : (ofRecords rs).Equiv index := by
  let _ : BEq Bytes := instBEqOfDecidableEq
  refine Std.TreeMap.Equiv.of_forall_constGet?_eq fun key => ?_
  cases made : (ofRecords rs)[key]? with
  | some value => exact ((h.held ⟨key, value⟩).1 (mem_of_getElem? made)).symm
  | none =>
    cases kept : index[key]? with
    | none => rfl
    | some value =>
      obtain ⟨value', there⟩ := exists_of_mem ((h.held ⟨key, value⟩).2 kept)
      rw [made] at there
      cases there

theorem OnePerKey.nodup (h : index.OnePerKey rs) : rs.Nodup :=
  h.distinct.of_map Record.key

/-- Two rows with one record for each key differ in their order only. -/
theorem OnePerKey.perm (h : index.OnePerKey rs) (h' : index.OnePerKey rs') : rs.Perm rs' := by
  refine (List.perm_ext_iff_of_nodup h.nodup h'.nodup).2 fun r => ?_
  rw [h.held, h'.held]

/-- One record for each key is no more than what was written. -/
theorem OnePerKey.subperm (h : (ofRecords rs').OnePerKey rs) : rs.Subperm rs' := by
  refine List.subperm_of_subset h.nodup ?_
  intro r mem
  exact mem_of_getElem? ((h.held r).1 mem)

end LogIndex

/-! ### The rest of the disk -/

namespace Log

theorem sidePath_ne_nil (log : Log) : log.sidePath ≠ [] := by
  simp [sidePath]

theorem sidePath_ne_path (log : Log) : log.sidePath ≠ log.path := by
  have names : sideName ≠ fileName := by decide
  simpa [sidePath, path] using names

end Log

/-- Only the log file and the side file of a directory may have changed, and what is a directory
has stayed one. -/
structure Disk.Beside (directory : Path) (d d' : Disk) : Prop where
  lookup : ∀ p, p ≠ directory ++ [Log.fileName] → p ≠ directory ++ [Log.sideName] →
    d'.lookup p = d.lookup p
  file? : ∀ p, p ≠ directory ++ [Log.fileName] → p ≠ directory ++ [Log.sideName] →
    d'.file? p = d.file? p
  directories : ∀ p, d'.lookup p = some .directory ↔ d.lookup p = some .directory
  workingDirectory : d'.workingDirectory = d.workingDirectory
  sizeLimit : d'.sizeLimit = d.sizeLimit
  calm : d.Calm → d'.Calm

namespace Disk.Beside

variable {directory : Path} {d d' d'' : Disk}

theorem trans (h : Beside directory d d') (h' : Beside directory d' d'') :
    Beside directory d d'' where
  lookup p hp hq := (h'.lookup p hp hq).trans (h.lookup p hp hq)
  file? p hp hq := (h'.file? p hp hq).trans (h.file? p hp hq)
  directories p := (h'.directories p).trans (h.directories p)
  workingDirectory := h'.workingDirectory.trans h.workingDirectory
  sizeLimit := h'.sizeLimit.trans h.sizeLimit
  calm hc := h'.calm (h.calm hc)

theorem of_same (h : Same d d') : Beside directory d d' where
  lookup p _ _ := h.lookup_eq p
  file? p _ _ := h.file?_eq p
  directories p := by rw [h.lookup_eq]
  workingDirectory := h.workingDirectory
  sizeLimit := h.sizeLimit
  calm := h.calm

theorem refl (directory : Path) (d : Disk) : Beside directory d d := of_same (.refl _ _ d)

theorem quiet (h : Beside directory d d') (hq : d.Quiet) : d'.Quiet :=
  ⟨h.calm hq.1, by rw [h.sizeLimit, hq.2]⟩

/-- Where only files of the log were touched, nothing else was. -/
theorem of_changes {P : Path → Prop} {N : FileNumber → Prop} (changes : Changes P N d d')
    (own : ∀ p, P p → p = directory ++ [Log.fileName] ∨ p = directory ++ [Log.sideName])
    (held : ∀ p n, N n → d.lookup p = some (.file n) →
      p = directory ++ [Log.fileName] ∨ p = directory ++ [Log.sideName])
    (files : ∀ p, P p → d.lookup p ≠ some .directory ∧ d'.lookup p ≠ some .directory) :
    Beside directory d d' := by
  have lookup : ∀ p, p ≠ directory ++ [Log.fileName] → p ≠ directory ++ [Log.sideName] →
      d'.lookup p = d.lookup p := by
    intro p hp hq
    refine changes.lookup p ?_
    intro inside
    rcases own p inside with here | here
    · exact hp here
    · exact hq here
  refine ⟨lookup, ?_, ?_, changes.workingDirectory,
    changes.sizeLimit, changes.calm⟩
  · -- The path leads to the same file, and the bytes of that one were not touched.
    intro p hp hq
    unfold Disk.file?
    rw [lookup p hp hq]
    cases at_path : d.lookup p with
    | none => rfl
    | some entry =>
      cases entry with
      | directory => rfl
      | file n =>
        refine congrArg some (changes.content n ?_)
        intro inside
        rcases held p n inside at_path with here | here
        · exact hp here
        · exact hq here
  · intro p
    by_cases inside : P p
    · simp [files p inside]
    · rw [changes.lookup p inside]

/-- Other bytes in a file of the log leave everything beside the log alone. -/
theorem of_content {N : FileNumber → Prop} {path : Path} (sound : d.Sound)
    (changes : Changes (fun _ => False) N d d')
    (own : path = directory ++ [Log.fileName] ∨ path = directory ++ [Log.sideName])
    (held : ∀ n, N n → d.lookup path = some (.file n)) : Beside directory d d' := by
  refine .of_changes changes (fun _ => False.elim) ?_ fun _ => False.elim
  intro p n hn hp
  rwa [sound.one_name p path n hp (held n hn)]

/-- So does opening a file of the log, or making it. -/
theorem of_obtained {path : Path} {n : FileNumber} (sound : d.Sound)
    (obtained : Obtained path n d d')
    (own : path = directory ++ [Log.fileName] ∨ path = directory ++ [Log.sideName]) :
    Beside directory d d' := by
  refine .of_changes obtained.changes ?_ ?_ ?_
  · rintro p rfl
    exact own
  · rintro p m rfl hp
    rwa [obtained.path_eq sound hp]
  · rintro p rfl
    exact ⟨obtained.not_directory, by simp [obtained.named]⟩

theorem directoriesIn (h : Beside directory d d') : DirectoriesIn d d' :=
  fun p => (h.directories p).2

end Disk.Beside

/-! ### Logs in step -/

namespace LogStore

/-- The parts of an open log are in step, and its file holds these records. -/
structure Intact (s : LogStore) (records : List Record) : Prop where
  sound : s.disk.Sound
  named : s.disk.lookup s.log.path = some (.file s.log.writer.file)
  content : s.disk.content s.log.writer.file = Record.images records
  fits : ∀ r ∈ records, r.Fits
  idle : s.log.writer.pending = ByteArray.empty
  length : s.log.length = Record.totalLength records
  index : s.log.index.Equiv (LogIndex.ofRecords records)
  /-- The directory is found where it was made. -/
  found : Disk.makeDirectories s.log.location s.disk = .ok s.log.directory s.disk
  worded : Disk.wordingFault? (s.log.location.join Log.fileName) = none

variable {s s' : LogStore} {records : List Record}

theorem Intact.file? (h : s.Intact records) :
    s.disk.file? s.log.path = some (Record.images records) := by
  unfold Disk.file?
  rw [h.named, ← h.content]

theorem Intact.size (h : s.Intact records) :
    (s.disk.content s.log.writer.file).size = s.log.length := by
  rw [h.content, h.length, Record.size_images]

/-- The log is in the same place, and nothing beside its files has changed. -/
structure Stays (s s' : LogStore) : Prop where
  location : s'.log.location = s.log.location
  directory : s'.log.directory = s.log.directory
  beside : Disk.Beside s.log.directory s.disk s'.disk

theorem Stays.refl (s : LogStore) : Stays s s := ⟨rfl, rfl, .refl _ s.disk⟩

theorem Stays.trans {s'' : LogStore} (h : Stays s s') (h' : Stays s' s'') : Stays s s'' where
  location := h'.location.trans h.location
  directory := h'.directory.trans h.directory
  beside := h.beside.trans (h.directory ▸ h'.beside)

theorem Stays.path (h : Stays s s') : s'.log.path = s.log.path := by
  unfold Log.path
  rw [h.directory]

/-- The directory of a log is still found. -/
theorem Stays.found (h : Stays s s')
    (found : Disk.makeDirectories s.log.location s.disk = .ok s.log.directory s.disk) :
    Disk.makeDirectories s'.log.location s'.disk = .ok s'.log.directory s'.disk := by
  have again := (Disk.meets_makeDirectories s.log.location s.disk).of_ok found
  rw [h.location, h.directory]
  exact again.2 s'.disk h.beside.directoriesIn h.beside.workingDirectory

/-- Where only bytes of the log file were touched, the log stays. -/
theorem Intact.stays (h : s.Intact records) (location : s'.log.location = s.log.location)
    (directory : s'.log.directory = s.log.directory)
    (changes : Disk.Changes (fun _ => False) (· = s.log.writer.file) s.disk s'.disk) :
    Stays s s' := by
  refine ⟨location, directory, .of_content h.sound changes (Or.inl rfl) ?_⟩
  rintro n rfl
  exact h.named

/-- Other bytes in the log file, with an index and a length that go with them. -/
theorem Intact.rewrite {records' : List Record} (h : s.Intact records)
    (location : s'.log.location = s.log.location) (directory : s'.log.directory = s.log.directory)
    (file : s'.log.writer.file = s.log.writer.file)
    (changes : Disk.Changes (fun _ => False) (· = s.log.writer.file) s.disk s'.disk)
    (content : s'.disk.content s.log.writer.file = Record.images records')
    (fits : ∀ r ∈ records', r.Fits) (idle : s'.log.writer.pending = ByteArray.empty)
    (length : s'.log.length = Record.totalLength records')
    (index : s'.log.index.Equiv (LogIndex.ofRecords records')) : s'.Intact records' := by
  have stays := h.stays location directory changes
  exact {
    sound := h.sound.keep changes
    named := by rw [stays.path, changes.lookup _ id, h.named, file]
    content := by rw [file, content]
    fits, idle, length, index
    found := stays.found h.found
    worded := by rw [location, h.worded] }

/-! ### Logs left alone -/

/-- Neither the index nor the length nor the bytes of the log file have changed. -/
structure Unchanged (s s' : LogStore) : Prop where
  index : s'.log.index = s.log.index
  length : s'.log.length = s.log.length
  file? : s'.disk.file? s.log.path = s.disk.file? s.log.path

/-- The log is still in step with the same records, whatever became of its side file. -/
structure LeftAlone (records : List Record) (s s' : LogStore) : Prop where
  intact : s'.Intact records
  unchanged : Unchanged s s'
  stays : Stays s s'

theorem Intact.leftAlone_self (h : s.Intact records) : LeftAlone records s s :=
  ⟨h, ⟨rfl, rfl, rfl⟩, .refl s⟩

/-- With the same bytes in its file and nothing in the buffer, a log is left alone. -/
theorem Intact.leftAlone (h : s.Intact records)
    (log : s'.log = { s.log with writer := s'.log.writer, unsynced := s'.log.unsynced })
    (file : s'.log.writer.file = s.log.writer.file)
    (idle : s'.log.writer.pending = ByteArray.empty)
    (changes : Disk.Changes (fun _ => False) (· = s.log.writer.file) s.disk s'.disk)
    (content : s'.disk.content s.log.writer.file = Record.images records) :
    LeftAlone records s s' := by
  have location : s'.log.location = s.log.location := by rw [log]
  have directory : s'.log.directory = s.log.directory := by rw [log]
  have index : s'.log.index = s.log.index := by rw [log]
  have length : s'.log.length = s.log.length := by rw [log]
  have stays := h.stays location directory changes
  have same_index : s'.log.index.Equiv (LogIndex.ofRecords records) := by
    rw [index]
    exact h.index
  have intact : s'.Intact records :=
    h.rewrite location directory file changes content h.fits idle (by rw [length, h.length])
      same_index
  refine ⟨intact, ⟨index, length, ?_⟩, stays⟩
  rw [h.file?, ← stays.path, intact.file?]

end LogStore

end FlatStore
