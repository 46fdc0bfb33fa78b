import FlatStore.Proofs.Log.Opening
import FlatStore.Proofs.Record.Split

/-! # Opening a log on any bytes

    Whatever bytes the log file holds, where no call on the disk fails the log
    is opened: it has the records at the front of the file, the file is cut
    back to them, and opening it again finds the same records and nothing
    behind them (`Log.any_bytes_are_opened`).
-/

namespace FlatStore

deriving instance DecidableEq for Record

/-- The value of the last record of a key. -/
def Record.lastValue? (records : List Record) (key : Bytes) : Option Bytes :=
  (records.reverse.find? fun r => r.key = key).map Record.value

/-- The index of records maps a key to the value of its last record. -/
theorem LogIndex.getElem?_ofRecords (records : List Record) (key : Bytes) :
    (ofRecords records)[key]? = Record.lastValue? records key := by
  -- From the end: the last record wins under its key.
  induction records using List.reverseRecOn with
  | nil => simp [ofRecords, Record.lastValue?]
  | append_singleton records r ih =>
    rw [ofRecords_concat, getElem?_apply, ih]
    unfold Record.lastValue?
    rw [List.reverse_append, List.reverse_singleton, List.singleton_append, List.find?_cons]
    by_cases same : key = r.key
    · simp [same]
    · have other : r.key ≠ key := Ne.symm same
      simp [same, other]

namespace Log

variable {d d' : Disk} {directory : Path} {location : WrittenPath} {b : Bytes} {log : Log}

/-- Whatever bytes the log file holds, they split in just one way into written records and a rest that
is empty or does not start with a record. Where no mishap is due the log is opened: it counts those
records, their bytes and the rest, it maps each key to the value of its last record, and the file is
left with the records and nothing else. When the log is let go of and opened again, the index and the
counts are the same and nothing is discarded. -/
theorem any_bytes_are_opened (sound : d.Sound) (calm : d.Calm)
    (made : Disk.makeDirectories location d = .ok directory d')
    (worded : Disk.wordingFault? (location.join fileName) = none)
    (held : d.file? (directory ++ [fileName]) = some b) (mode : Durability) :
    ∃ records rest bytes, Record.Splits b records rest ∧
      (∀ records' rest', Record.Splits b records' rest' → records' = records ∧ rest' = rest) ∧
      Record.encodeAll records = .ok bytes ∧
      ∃ log d₁, openAt location mode d = .ok log d₁ ∧
        log.replay = ⟨records.length, bytes.size, rest.size⟩ ∧
        (∀ key, log.index[key]? = Record.lastValue? records key) ∧
        d₁.file? (directory ++ [fileName]) = some bytes ∧
        ∀ again : Durability, ∃ log₂ d₂,
          openAt location again (LogStore.release ⟨d₁, log⟩) = .ok log₂ d₂ ∧
          log₂.index = log.index ∧ log₂.replay = ⟨records.length, bytes.size, 0⟩ := by
  obtain ⟨log, d₁, run, intact, opened, content⟩ :=
    openAt_on_file sound calm made worded held mode
  obtain rfl := opened.at_location
  obtain rfl := opened.at_directory
  have calm₁ : d₁.Calm :=
    opened.beside.calm (((Disk.meets_makeDirectories log.location d).of_ok made).1.calm calm)
  have length : (Record.scan b).length = Record.totalLength (Record.scan b).records :=
    Record.length_scan b
  refine ⟨_, _, _, Record.splits_iff.2 ⟨rfl, rfl⟩, fun _ _ => Record.splits_iff.1,
    Record.encodeAll_of_fits intact.fits, log, d₁, run, ?_, ?_, intact.file?, ?_⟩
  · rw [opened.replay, content, Record.size_images, Record.size_behind, ← length]
    rfl
  · intro key
    rw [opened.index, content, LogIndex.getElem?_ofRecords]
  · intro again
    have reopened := intact.meets_reopen again
    cases second : openAt log.location again (LogStore.release ⟨d₁, log⟩) with
    | error fault d₂ => exact absurd calm₁ (reopened.of_error second)
    | ok log₂ d₂ =>
      obtain ⟨-, index₂, replay₂, -⟩ := reopened.of_ok second
      rw [← content, ← opened.index] at index₂
      refine ⟨log₂, d₂, rfl, index₂, ?_⟩
      rw [replay₂, Record.size_images, ← intact.length]

/-- The log file of a sound disk can hold any bytes. -/
theorem exists_disk_with_file (b : Bytes) :
    ∃ d : Disk, d.Sound ∧ d.Calm ∧ Disk.makeDirectories ⟨"db"⟩ d = .ok ["db"] d ∧
      d.file? (["db"] ++ [fileName]) = some b := by
  have made : Disk.makeDirectories ⟨"db"⟩ {} = .ok ["db"] _ := rfl
  obtain ⟨grown, again⟩ := (Disk.meets_makeDirectories ⟨"db"⟩ {}).of_ok made
  set d₀ : Disk := Disk.setEntry {} ["db"] .directory
  set d : Disk := d₀.addFile (["db"] ++ [fileName]) b with d_def
  have path : (["db"] ++ [fileName] : Path) ≠ [] := by decide
  have obtained : Disk.Obtained (["db"] ++ [fileName]) 0 d₀ d :=
    ⟨d₀.changes_addFile path b, d₀.lookup_addFile path b,
      Or.inr ⟨by decide +kernel, Nat.le_refl 0, Nat.zero_lt_one⟩⟩
  refine ⟨d, obtained.sound (grown.sound Disk.sound_empty), rfl, again d ?_ rfl, ?_⟩
  · -- The file is in no directory's place.
    intro p hp
    have other : p ≠ ["db"] ++ [fileName] := by
      rintro rfl
      exact obtained.not_directory hp
    rw [obtained.changes.lookup p other]
    exact hp
  · unfold Disk.file?
    rw [obtained.named]
    exact congrArg some (Disk.content_setContent d₀ 0 b)

/-- A file holds two values under one key, and behind them four bytes of a third record. The log is
opened with the second value, and the four bytes are dropped. -/
theorem torn_value_is_dropped :
    ∃ (d d₁ d₂ : Disk) (log log₂ : Log), d.file? (["db"] ++ [fileName]) =
        some (Record.image ⟨"key".toUTF8, "old".toUTF8⟩ ++
          Record.image ⟨"key".toUTF8, "new".toUTF8⟩ ++ ⟨#[3, 0, 0, 0]⟩) ∧
      openAt ⟨"db"⟩ .strict d = .ok log d₁ ∧ log.replay = ⟨2, 36, 4⟩ ∧
      log.index["key".toUTF8]? = some "new".toUTF8 ∧
      openAt ⟨"db"⟩ .none (LogStore.release ⟨d₁, log⟩) = .ok log₂ d₂ ∧
      log₂.index = log.index ∧ log₂.replay = ⟨2, 36, 0⟩ := by
  set old : Record := ⟨"key".toUTF8, "old".toUTF8⟩ with old_def
  set new : Record := ⟨"key".toUTF8, "new".toUTF8⟩ with new_def
  obtain ⟨d, sound, calm, made, held⟩ :=
    exists_disk_with_file (old.image ++ new.image ++ ⟨#[3, 0, 0, 0]⟩)
  obtain ⟨records, rest, written, -, unique, encoded, log, d₁, opened, replay, index, -, reopens⟩ :=
    any_bytes_are_opened sound calm made (by decide) held .strict
  obtain ⟨log₂, d₂, reopened, index₂, replay₂⟩ := reopens .none
  obtain ⟨rfl, rfl⟩ := unique [old, new] ⟨#[3, 0, 0, 0]⟩
    (Record.splits_iff.2 ⟨by decide +kernel, by decide +kernel⟩)
  have size : written.size = 36 := by
    rw [(Record.encodeAll_eq_ok encoded).2, Record.size_images]
    decide
  rw [size] at replay replay₂
  refine ⟨d, d₁, d₂, log, log₂, held, opened, replay, ?_, reopened, index₂, replay₂⟩
  rw [index]
  decide

end Log

end FlatStore
