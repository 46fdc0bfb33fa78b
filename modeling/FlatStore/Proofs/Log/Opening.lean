import FlatStore.Proofs.Log.Intact

/-! # Opening a log

    Opening a log in any directory gives a log that is in step: its records are
    those that a scan of the file finds, and the file is cut back to them
    (`Log.meets_openAt`). Opening a log that was in step before gives the same
    records again, and discards nothing (`LogStore.Intact.meets_reopen`).
-/

namespace FlatStore

namespace Log

variable {d d' : Disk} {directory : Path} {location : WrittenPath} {mode : Durability} {log : Log}

/-- The bytes of the log file in a directory; none if there is no such file. -/
def contentIn (directory : Path) (d : Disk) : Bytes :=
  (d.file? (directory ++ [fileName])).getD ByteArray.empty

/-- What opening a log in a directory gives. -/
structure OpenedIn (location : WrittenPath) (directory : Path) (d d' : Disk) (log : Log) :
    Prop where
  at_location : log.location = location
  at_directory : log.directory = directory
  sound : d'.Sound
  named : d'.lookup (directory ++ [fileName]) = some (.file log.writer.file)
  content : d'.content log.writer.file =
    Record.images (Record.scan (contentIn directory d)).records
  idle : log.writer.pending = ByteArray.empty
  length : log.length = Record.totalLength (Record.scan (contentIn directory d)).records
  index : log.index = LogIndex.ofRecords (Record.scan (contentIn directory d)).records
  replay : log.replay = (Replay.ofFile (contentIn directory d)).2
  beside : Disk.Beside directory d d'

/-- The log file was cut back to the records that a scan finds, if it was there. -/
structure CutIn (directory : Path) (d d' : Disk) : Prop where
  changes : Disk.Changes (fun _ => False)
    (fun n => d.lookup (directory ++ [fileName]) = some (.file n)) d d'
  content : contentIn directory d' = Record.images (Record.scan (contentIn directory d)).records

theorem contentIn_eq {n : FileNumber} (h : d.lookup (directory ++ [fileName]) = some (.file n)) :
    contentIn directory d = d.content n := by
  unfold contentIn Disk.file?
  rw [h]
  rfl

/-- On a disk without files there is no log. -/
theorem contentIn_empty (directory : Path) : contentIn directory {} = ByteArray.empty := by
  unfold contentIn Disk.file?
  cases directory <;> simp [Disk.lookup]

theorem contentIn_same (same : Disk.Same d d') :
    contentIn directory d' = contentIn directory d := by
  unfold contentIn
  rw [same.file?_eq]

/-- A file without anything behind its records is left as it is. -/
theorem cutIn_of_whole (h : ¬ (Replay.ofFile (contentIn directory d)).2.discardedBytes > 0)
    (same : Disk.Same d d') : CutIn directory d d' := by
  refine ⟨.of_same same, ?_⟩
  have whole : (contentIn directory d).size ≤ (Record.scan (contentIn directory d)).length := by
    simp only [Replay.ofFile] at h
    omega
  obtain ⟨-, stands⟩ := Record.extract_scan (contentIn directory d)
  rw [contentIn_same same, ← stands, ← Nat.max_eq_left whole, ByteArray.extract_zero_max_size]

/-- Where there is something to cut off, there is a file. -/
theorem exists_named_of_discarded (h : (Replay.ofFile (contentIn directory d)).2.discardedBytes > 0)
    (file : d.lookup (directory ++ [fileName]) ≠ some .directory) :
    ∃ n, d.lookup (directory ++ [fileName]) = some (.file n) := by
  cases at_path : d.lookup (directory ++ [fileName]) with
  | none =>
    have nothing : contentIn directory d = ByteArray.empty := by
      unfold contentIn Disk.file?
      rw [at_path]
      rfl
    rw [nothing] at h
    simp [Replay.ofFile] at h
  | some entry =>
    cases entry with
    | directory => exact absurd at_path file
    | file n => exact ⟨n, rfl⟩

/-- What stands behind the records of a file is cut off. -/
theorem meets_cut (h : (Replay.ofFile (contentIn directory d)).2.discardedBytes > 0)
    (same : Disk.Same d d') (file : d.lookup (directory ++ [fileName]) ≠ some .directory)
    {α : Type} {good : α → Disk → Prop} {rest : EStateM DiskFault Disk α}
    (hrest : ∀ d₁, CutIn directory d d₁ → Meets good (fun _ _ => ¬ d.Calm) (rest d₁)) :
    Meets good (fun _ _ => ¬ d.Calm) ((do
      let number ← Disk.openExisting (directory ++ [fileName])
      Disk.setLength number (Replay.ofFile (contentIn directory d)).2.validBytes
      Disk.sync
      rest) d') := by
  obtain ⟨n, named⟩ := exists_named_of_discarded h file
  have named' : d'.lookup (directory ++ [fileName]) = some (.file n) := by
    rw [same.lookup_eq, named]
  refine (Disk.meets_openExisting named').andThen ?_ fun _ _ failed calm =>
    failed.2 (same.calm calm)
  intro number d₁ opened
  obtain ⟨rfl, same₁⟩ := opened
  have same₂ : Disk.Same d d₁ := same.trans same₁
  have content : d₁.content number = contentIn directory d := by
    rw [same₂.content_eq, contentIn_eq named]
  have short : (Replay.ofFile (contentIn directory d)).2.validBytes ≤
      (d₁.content number).size := by
    rw [content]
    exact Record.length_scan_le _
  refine (Disk.meets_setLength short).andThen ?_ fun _ _ failed calm =>
    failed.2 (same₂.calm calm)
  intro _ d₂ cut
  obtain ⟨changes, content₂⟩ := cut
  refine (Disk.meets_proceed d₂).andThen ?_ fun _ _ failed calm =>
    failed.2 (changes.calm (same₂.calm calm))
  intro _ d₃ same₃
  have own : ∀ n, n = number → d.lookup (directory ++ [fileName]) = some (.file n) := by
    rintro n rfl
    exact named
  have touched := changes.mono (fun _ => id) own
  have named₃ : d₃.lookup (directory ++ [fileName]) = some (.file number) := by
    rw [same₃.lookup_eq, changes.lookup _ id, same₂.lookup_eq, named]
  apply hrest
  refine ⟨(Disk.Changes.of_same same₂).trans (touched.trans (.of_same same₃)), ?_⟩
  -- The bytes that are left are those of the records.
  rw [contentIn_eq named₃, same₃.content_eq, content₂, content]
  exact (Record.extract_scan _).2

/-- Once the file is cut back it is opened, or made if it was not there. -/
theorem meets_enter (sound : d.Sound) (cut : CutIn directory d d')
    (file : d.lookup (directory ++ [fileName]) ≠ some .directory) (location : WrittenPath)
    (mode : Durability) :
    Meets (fun log d'' => OpenedIn location directory d d'' log) (fun _ _ => ¬ d.Calm)
      ((do
        let number ← Disk.openOrCreate (directory ++ [fileName])
        return ({
          location, directory, mode
          replay := (Replay.ofFile (contentIn directory d)).2
          index := (Replay.ofFile (contentIn directory d)).1
          writer := { file := number }
          length := (Replay.ofFile (contentIn directory d)).2.validBytes } : Log)) d') := by
  have sound' : d'.Sound := sound.keep cut.changes
  have file' : d'.lookup (directory ++ [fileName]) ≠ some .directory := by
    rwa [cut.changes.lookup _ id]
  have beside : Disk.Beside directory d d' :=
    .of_content sound cut.changes (Or.inl rfl) fun _ => id
  refine (Disk.meets_openOrCreate d' (by simp)).andThen ?_ ?_
  · intro n d₁ opened
    obtain ⟨obtained, content⟩ := opened
    exact {
      at_location := rfl
      at_directory := rfl
      sound := obtained.sound sound'
      named := obtained.named
      content := content.trans cut.content
      idle := rfl
      length := Record.length_scan _
      index := rfl
      replay := rfl
      beside := beside.trans (.of_obtained sound' obtained (Or.inl rfl)) }
  · intro _ d₁ failed calm
    rcases failed.2 with loud | blocked
    · exact loud (cut.changes.calm calm)
    · exact file' blocked

/-- Opening a log whose file is in any state, with a sound disk. -/
theorem meets_openIn (sound : d.Sound) (location : WrittenPath) (directory : Path)
    (mode : Durability) :
    Meets (fun log d' => OpenedIn location directory d d' log)
      (fun _ _ => ¬ d.Calm ∨ d.lookup (directory ++ [fileName]) = some .directory)
      (openIn location directory mode d) := by
  unfold openIn
  refine (Disk.meets_readFile d _).andThen ?_ fun _ _ failed => failed.2
  intro found d₁ readed
  obtain ⟨rfl, file, same⟩ := readed
  show Meets _ _ ((if (Replay.ofFile (contentIn directory d)).2.discardedBytes > 0 then _ else _ :
    EStateM DiskFault Disk Log) d₁)
  by_cases damaged : (Replay.ofFile (contentIn directory d)).2.discardedBytes > 0
  · rw [if_pos damaged]
    have opened := meets_cut damaged same file fun d₂ cut =>
      meets_enter sound cut file location mode
    exact opened.mono (fun _ _ => id) fun _ _ => Or.inl
  · rw [if_neg damaged]
    have opened := meets_enter sound (cutIn_of_whole damaged same) file location mode
    exact opened.mono (fun _ _ => id) fun _ _ => Or.inl

/-- A log that was opened in a directory that is found again is in step. -/
theorem OpenedIn.intact (h : OpenedIn location directory d d' log)
    (found : Disk.makeDirectories location d' = .ok directory d')
    (worded : Disk.wordingFault? (location.join fileName) = none) :
    LogStore.Intact ⟨d', log⟩ (Record.scan (contentIn directory d)).records where
  sound := h.sound
  named := by
    show d'.lookup (log.directory ++ [fileName]) = _
    rw [h.at_directory, h.named]
  content := h.content
  fits := (Record.extract_scan _).1
  idle := h.idle
  length := h.length
  index := by
    show log.index.Equiv _
    rw [h.index]
  found := by
    show Disk.makeDirectories log.location d' = .ok log.directory d'
    rw [h.at_location, h.at_directory, found]
  worded := by
    show Disk.wordingFault? (log.location.join fileName) = none
    rw [h.at_location, worded]

/-- The file of an opened log is no directory, so making directories has not touched it. -/
theorem contentIn_grown (grown : Disk.Grown d d')
    (file : d'.lookup (directory ++ [fileName]) ≠ some .directory) :
    contentIn directory d' = contentIn directory d := by
  unfold contentIn Disk.file?
  rcases grown.lookup (directory ++ [fileName]) with same | ⟨-, made⟩
  · rw [same]
    cases d.lookup (directory ++ [fileName]) with
    | none => rfl
    | some entry =>
      cases entry with
      | directory => rfl
      | file n =>
        show (some (d'.content n)).getD _ = _
        rw [grown.content]
  · exact absurd made file

/-- An opened log is in step; its records are those that a scan of the file finds. -/
theorem meets_openAt (sound : d.Sound) (location : WrittenPath) (mode : Durability) :
    Meets (fun log d' =>
        LogStore.Intact ⟨d', log⟩ (Record.scan (contentIn log.directory d)).records ∧
        log.index = LogIndex.ofRecords (Record.scan (contentIn log.directory d)).records ∧
        log.location = location ∧ (d.Quiet → d'.Quiet))
      (fun _ _ => True) (openAt location mode d) := by
  unfold openAt
  refine (Disk.meets_makeDirectories location d).andThen ?_ fun _ _ _ => trivial
  intro directory d₁ made
  obtain ⟨grown, again⟩ := made
  refine (Disk.meets_checkWording _ d₁).andThen ?_ fun _ _ _ => trivial
  intro _ d₂ checked
  obtain ⟨worded, rfl⟩ := checked
  refine (meets_openIn (grown.sound sound) location directory mode).mono ?_ fun _ _ _ => trivial
  intro log d₃ opened
  -- There is a log file now, so no directory was made in its place before.
  have file : d₂.lookup (directory ++ [fileName]) ≠ some .directory := by
    intro blocked
    have stays := (opened.beside.directories _).2 blocked
    rw [opened.named] at stays
    cases stays
  -- Opening the file has touched no directory, so the path leads to the same one again.
  have found : Disk.makeDirectories location d₃ = .ok directory d₃ :=
    again d₃ opened.beside.directoriesIn
      (opened.beside.workingDirectory.trans grown.workingDirectory)
  have quiet : d.Quiet → d₃.Quiet := fun hq => opened.beside.quiet (grown.quiet hq)
  rw [opened.at_directory, ← contentIn_grown grown file]
  exact ⟨opened.intact found worded, opened.index, opened.at_location, quiet⟩

/-- Where the directory can be made, no mishap is due and nothing but a file is in the place of the
log file, a log is opened in that directory. -/
theorem openAt_opens (sound : d.Sound) (calm : d.Calm)
    (made : Disk.makeDirectories location d = .ok directory d')
    (worded : Disk.wordingFault? (location.join fileName) = none)
    (file : d'.lookup (directory ++ [fileName]) ≠ some .directory) (mode : Durability) :
    ∃ log d'', openAt location mode d = .ok log d'' ∧ OpenedIn location directory d' d'' log := by
  have grown := ((Disk.meets_makeDirectories location d).of_ok made).1
  have opened := meets_openIn (grown.sound sound) location directory mode
  unfold openAt
  rw [EStateM.bind_of_ok made, EStateM.bind_of_ok (Disk.checkWording_of_none worded d')]
  cases run : openIn location directory mode d' with
  | ok log d'' => exact ⟨log, d'', rfl, opened.of_ok run⟩
  | error fault d'' =>
    rcases opened.of_error run with loud | blocked
    · exact absurd (grown.calm calm) loud
    · exact absurd blocked file

theorem openAt_succeeds (sound : d.Sound) (calm : d.Calm)
    (made : Disk.makeDirectories location d = .ok directory d')
    (worded : Disk.wordingFault? (location.join fileName) = none)
    (file : d'.lookup (directory ++ [fileName]) ≠ some .directory) (mode : Durability) :
    ∃ log d'', openAt location mode d = .ok log d'' ∧ Disk.Beside directory d' d'' := by
  obtain ⟨log, d'', run, opened⟩ := openAt_opens sound calm made worded file mode
  exact ⟨log, d'', run, opened.beside⟩

/-- Where no mishap is due, a log file with any bytes is opened, and the log is in step with the
records that a scan of the bytes finds. -/
theorem openAt_on_file {b : Bytes} (sound : d.Sound) (calm : d.Calm)
    (made : Disk.makeDirectories location d = .ok directory d')
    (worded : Disk.wordingFault? (location.join fileName) = none)
    (held : d.file? (directory ++ [fileName]) = some b) (mode : Durability) :
    ∃ log d'', openAt location mode d = .ok log d'' ∧
      LogStore.Intact ⟨d'', log⟩ (Record.scan b).records ∧
      OpenedIn location directory d' d'' log ∧ contentIn directory d' = b := by
  have grown := ((Disk.meets_makeDirectories location d).of_ok made).1
  -- The file was there before any directory was made, and is no directory.
  have file : d'.lookup (directory ++ [fileName]) ≠ some .directory := by
    intro blocked
    unfold Disk.file? at held
    rcases grown.lookup (directory ++ [fileName]) with same | ⟨nothing, -⟩
    · rw [← same, blocked] at held
      cases held
    · rw [nothing] at held
      cases held
  have before : contentIn directory d = b := by rw [contentIn, held, Option.getD_some]
  obtain ⟨log, d'', run, opened⟩ := openAt_opens sound calm made worded file mode
  have intact := ((meets_openAt sound location mode).of_ok run).1
  rw [opened.at_directory, before] at intact
  exact ⟨log, d'', run, intact, opened, (contentIn_grown grown file).trans before⟩

end Log

namespace LogStore

variable {s : LogStore} {records : List Record}

/-- Letting go of a log leaves the disk as it is. -/
theorem Intact.release (h : s.Intact records) : s.release = s.disk := by
  unfold LogStore.release
  rw [Appender.flush_of_empty h.idle]

theorem Intact.contentIn (h : s.Intact records) :
    Log.contentIn s.log.directory s.disk = Record.images records := by
  rw [Log.contentIn_eq h.named, h.content]

/-- A log that was let go of in step is opened again with the same records, and nothing of the file
is discarded. -/
theorem Intact.meets_reopen (h : s.Intact records) (mode : Durability) :
    Meets (fun log d' => LogStore.Intact ⟨d', log⟩ records ∧
        log.index = LogIndex.ofRecords records ∧
        log.replay = ⟨records.length, s.log.length, 0⟩ ∧ Stays s ⟨d', log⟩)
      (fun _ _ => ¬ s.disk.Calm) (Log.openAt s.log.location mode s.release) := by
  have scanned : Record.scan (Log.contentIn s.log.directory s.disk) =
      ⟨records, Record.totalLength records, none⟩ := by
    rw [h.contentIn, Record.scan_images h.fits]
  rw [h.release]
  -- The directory is there already, and a scan of the file finds its records and nothing else.
  unfold Log.openAt
  rw [EStateM.bind_of_ok h.found, EStateM.bind_of_ok (Disk.checkWording_of_none h.worded s.disk)]
  refine (Log.meets_openIn h.sound s.log.location s.log.directory mode).mono ?_ ?_
  · intro log d' opened
    have stays : Stays s ⟨d', log⟩ := ⟨opened.at_location, opened.at_directory, opened.beside⟩
    have found : Disk.makeDirectories s.log.location d' = .ok s.log.directory d' := by
      rw [← opened.at_location, ← opened.at_directory]
      exact stays.found h.found
    have intact := opened.intact found h.worded
    have index := opened.index
    have replay := opened.replay
    rw [scanned] at intact index
    refine ⟨intact, index, ?_, stays⟩
    rw [replay, h.contentIn]
    simp only [Replay.ofFile, Record.scan_images h.fits, Record.size_images, h.length, Nat.sub_self]
  · intro _ d' failed
    rcases failed with loud | blocked
    · exact loud
    · have named := h.named
      unfold Log.path at named
      rw [blocked] at named
      cases named

end LogStore

end FlatStore
