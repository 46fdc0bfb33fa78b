import FlatStore.Proofs.Log.Recovery
import FlatStore.Proofs.Record.Damage

/-! # Opening a damaged log

    Where nothing is read behind the records at the front of the log file, a
    log is opened with just these records, and the file is cut back to them
    (`Log.opens_on_records`). Two kinds of damage:

    * **A few changed bytes** behind the header of a record: the checksums
      differ, so just the records in front of it are kept
      (`Log.short_damage_ends_log`).
    * **Zero bytes** behind the records, as in a file that was made longer but
      not written to. Twelve zero bytes are a record, with an empty key and an
      empty value, so zero bytes are read in twelves, and only what is left of
      them is dropped (`Log.zeros_are_read_in_twelves`).
-/

namespace FlatStore

/-! ### Zero bytes -/

/-- A number of zero bytes. -/
def Bytes.zeros (n : Nat) : Bytes := ⟨Array.replicate n 0⟩

@[simp]
theorem Bytes.size_zeros (n : Nat) : (zeros n).size = n := Array.size_replicate

theorem Bytes.zeros_append_zeros (m n : Nat) : zeros m ++ zeros n = zeros (m + n) := by
  refine ByteArray.ext ?_
  rw [ByteArray.data_append]
  exact Array.replicate_append_replicate

namespace Record

/-- The record of an empty key and an empty value. -/
def blank : Record := ⟨ByteArray.empty, ByteArray.empty⟩

theorem fits_blank : blank.Fits := ⟨Nat.zero_le _, Nat.zero_le _⟩

/-- The checksum of nothing is zero, as are both lengths. -/
theorem image_blank : blank.image = Bytes.zeros 12 := by decide +kernel

theorem images_blanks (n : Nat) : images (List.replicate n blank) = Bytes.zeros (12 * n) := by
  induction n with
  | zero => rfl
  | succ n ih =>
    rw [List.replicate_succ, images, ih, image_blank, Bytes.zeros_append_zeros, Nat.mul_succ,
      Nat.add_comm]

variable {records : List Record} {rest : Bytes}

/-- Fewer bytes than the shortest record takes are no record. -/
theorem ended_of_short (short : rest.size < 12) :
    Ended (images records ++ rest) (totalLength records) := by
  have size : (images records ++ rest).size = totalLength records + rest.size := by
    rw [ByteArray.size_append, size_images]
  rcases Nat.eq_zero_or_pos rest.size with nothing | more
  · exact Or.inl (by omega)
  · exact Or.inr (read_of_excess rfl rfl (by omega) (by omega))

/-- The value of a key among records and others behind them. -/
theorem lastValue?_append (front behind : List Record) (key : Bytes) :
    lastValue? (front ++ behind) key = (lastValue? behind key).or (lastValue? front key) := by
  unfold lastValue?
  rw [List.reverse_append, List.find?_append, Option.map_or]

theorem lastValue?_blanks (n : Nat) (key : Bytes) :
    lastValue? (List.replicate n blank) key =
      if 0 < n ∧ key = ByteArray.empty then some ByteArray.empty else none := by
  unfold lastValue?
  rw [List.reverse_replicate, List.find?_replicate]
  by_cases nothing : n = 0
  · simp [nothing]
  · by_cases empty : key = ByteArray.empty
    · simp [nothing, empty, blank, Nat.pos_of_ne_zero]
    · have other : blank.key ≠ key := Ne.symm empty
      simp [nothing, empty, other]

end Record

namespace Log

variable {d d' : Disk} {directory : Path} {location : WrittenPath} {records : List Record}
  {bytes rest : Bytes}

/-! ### Where nothing is read behind the records -/

/-- A log whose file holds records, and bytes behind them from which nothing is read, is opened with
the records, and the file is cut back to them. -/
theorem opens_on_records (sound : d.Sound) (calm : d.Calm)
    (made : Disk.makeDirectories location d = .ok directory d')
    (worded : Disk.wordingFault? (location.join fileName) = none) (fits : ∀ r ∈ records, r.Fits)
    (ended : Record.Ended (Record.images records ++ rest) (Record.totalLength records))
    (held : d.file? (directory ++ [fileName]) = some (Record.images records ++ rest))
    (mode : Durability) :
    ∃ log d₁, openAt location mode d = .ok log d₁ ∧
      log.replay = ⟨records.length, Record.totalLength records, rest.size⟩ ∧
      (∀ key, log.index[key]? = Record.lastValue? records key) ∧
      d₁.file? (directory ++ [fileName]) = some (Record.images records) := by
  obtain ⟨log, d₁, run, intact, opened, content⟩ :=
    openAt_on_file sound calm made worded held mode
  obtain rfl := opened.at_directory
  obtain ⟨found, length⟩ := Record.scan_of_ended fits ended
  rw [found] at intact
  refine ⟨log, d₁, run, ?_, ?_, intact.file?⟩
  · rw [opened.replay, content, Replay.ofFile, found, length, ByteArray.size_append,
      Record.size_images, Nat.add_sub_cancel_left]
  · intro key
    rw [opened.index, content, found, LogIndex.getElem?_ofRecords]

/-! ### A few changed bytes -/

/-- Where bytes of a written record were changed, at no more than four positions in a row and none
of them in its header, reading there gives a checksum on file and another one that was computed,
whatever stands in front of the record and behind it. So a log with such a record is opened with
just the records in front of it, and the file is cut back to them. -/
theorem short_damage_ends_log {r : Record} {image damaged : Bytes} {i n : Nat}
    (encoded : r.encode = .ok image) (hit : Bytes.ChangedWithin i n image damaged) (short : n ≤ 4)
    (behind : Record.headerLength ≤ i) :
    (∀ before rest, ∃ stored computed, stored ≠ computed ∧
      Record.read (before ++ damaged ++ rest) before.size = .error (.checksum stored computed)) ∧
    ∀ (records : List Record) (bytes rest : Bytes), Record.encodeAll records = .ok bytes →
      ∀ (d d' : Disk) (directory : Path) (location : WrittenPath), d.Sound → d.Calm →
        Disk.makeDirectories location d = .ok directory d' →
        Disk.wordingFault? (location.join fileName) = none →
        d.file? (directory ++ [fileName]) = some (bytes ++ damaged ++ rest) → ∀ mode,
          ∃ log d₁, openAt location mode d = .ok log d₁ ∧
            log.replay = ⟨records.length, bytes.size, (damaged ++ rest).size⟩ ∧
            (∀ key, log.index[key]? = Record.lastValue? records key) ∧
            d₁.file? (directory ++ [fileName]) = some bytes := by
  obtain ⟨fits, rfl⟩ := Record.encode_eq_ok encoded
  have refused := Record.read_of_short_damage fits hit short behind
  refine ⟨refused, ?_⟩
  intro records bytes rest written d d' directory location sound calm made worded held mode
  obtain ⟨all_fit, rfl⟩ := Record.encodeAll_eq_ok written
  obtain ⟨stored, computed, -, read⟩ := refused (Record.images records) rest
  rw [ByteArray.append_assoc] at held read
  rw [Record.size_images] at read ⊢
  exact opens_on_records sound calm made worded all_fit (Or.inr ⟨_, read⟩) held mode

/-- The last byte of a value and the first byte of its checksum are changed. The record in front of
them is kept, and the one behind them is lost with the damaged one. -/
theorem value_and_sum_damaged :
    ∃ (image damaged : Bytes) (d d₁ : Disk) (log : Log),
      Record.encode ⟨"b".toUTF8, "2".toUTF8⟩ = .ok image ∧
      Bytes.ChangedWithin 9 2 image damaged ∧
      d.file? (["db"] ++ [fileName]) = some (Record.image ⟨"a".toUTF8, "1".toUTF8⟩ ++ damaged ++
        Record.image ⟨"c".toUTF8, "3".toUTF8⟩) ∧
      openAt ⟨"db"⟩ .strict d = .ok log d₁ ∧ log.replay = ⟨1, 14, 28⟩ ∧
      log.index["a".toUTF8]? = some "1".toUTF8 ∧ log.index["b".toUTF8]? = none ∧
      log.index["c".toUTF8]? = none := by
  set a : Record := ⟨"a".toUTF8, "1".toUTF8⟩ with a_def
  set b : Record := ⟨"b".toUTF8, "2".toUTF8⟩ with b_def
  set c : Record := ⟨"c".toUTF8, "3".toUTF8⟩ with c_def
  have encoded : b.encode = .ok b.image := Record.encode_of_fits ⟨by decide, by decide⟩
  have parts : b.image = ⟨#[1, 0, 0, 0, 1, 0, 0, 0, 98]⟩ ++ ⟨#[50, 90]⟩ ++ ⟨#[74, 197, 222]⟩ := by
    decide +kernel
  have hit := Bytes.changedWithin_replace ⟨#[1, 0, 0, 0, 1, 0, 0, 0, 98]⟩ ⟨#[74, 197, 222]⟩
    (x := ⟨#[50, 90]⟩) (y := ⟨#[51, 91]⟩) rfl (by decide)
  rw [← parts] at hit
  have written : Record.encodeAll [a] = .ok a.image :=
    Record.encodeAll_singleton ⟨by decide, by decide⟩
  obtain ⟨d, sound, calm, made, held⟩ := exists_disk_with_file
    (a.image ++ (⟨#[1, 0, 0, 0, 1, 0, 0, 0, 98]⟩ ++ ⟨#[51, 91]⟩ ++ ⟨#[74, 197, 222]⟩) ++ c.image)
  obtain ⟨log, d₁, opened, replay, index, -⟩ :=
    (short_damage_ends_log encoded hit (by decide) (by decide)).2 [a] a.image c.image written d d
      ["db"] ⟨"db"⟩ sound calm made (by decide) held .strict
  refine ⟨_, _, d, d₁, log, encoded, hit, held, opened, replay, ?_, ?_, ?_⟩
  · rw [index]
    decide
  · rw [index]
    decide
  · rw [index]
    decide

/-! ### Zero bytes behind the records -/

/-- A log whose file holds records and zero bytes behind them is opened with the records and, for
each twelve zero bytes, a record with an empty key and an empty value. Fewer than twelve zero bytes
are left; they are counted as discarded, and the file is cut back by them. -/
theorem zeros_are_read_in_twelves (sound : d.Sound) (calm : d.Calm)
    (made : Disk.makeDirectories location d = .ok directory d')
    (worded : Disk.wordingFault? (location.join fileName) = none)
    (written : Record.encodeAll records = .ok bytes) (n : Nat)
    (held : d.file? (directory ++ [fileName]) = some (bytes ++ Bytes.zeros n))
    (mode : Durability) :
    ∃ log d₁, openAt location mode d = .ok log d₁ ∧
      log.replay = ⟨records.length + n / 12, bytes.size + 12 * (n / 12), n % 12⟩ ∧
      (∀ key, log.index[key]? =
        if 12 ≤ n ∧ key = ByteArray.empty then some ByteArray.empty
        else Record.lastValue? records key) ∧
      d₁.file? (directory ++ [fileName]) = some (bytes ++ Bytes.zeros (12 * (n / 12))) := by
  obtain ⟨fits, rfl⟩ := Record.encodeAll_eq_ok written
  -- The twelves are written records like those in front of them.
  set all := records ++ List.replicate (n / 12) Record.blank with all_def
  have images : Record.images all = Record.images records ++ Bytes.zeros (12 * (n / 12)) := by
    rw [all_def, Record.images_append, Record.images_blanks]
  have all_fit : ∀ r ∈ all, r.Fits := by
    intro r hr
    rcases List.mem_append.1 hr with front | behind
    · exact fits r front
    · exact (List.eq_of_mem_replicate behind) ▸ Record.fits_blank
  have length : Record.totalLength all = Record.totalLength records + 12 * (n / 12) := by
    rw [← Record.size_images, images, ByteArray.size_append, Record.size_images, Bytes.size_zeros]
  have ended : Record.Ended (Record.images all ++ Bytes.zeros (n % 12)) (Record.totalLength all) :=
    Record.ended_of_short (by
      rw [Bytes.size_zeros]
      exact Nat.mod_lt n (by decide))
  have content : Record.images records ++ Bytes.zeros n =
      Record.images all ++ Bytes.zeros (n % 12) := by
    rw [images, ByteArray.append_assoc, Bytes.zeros_append_zeros, Nat.div_add_mod]
  rw [content] at held
  obtain ⟨log, d₁, run, replay, index, file⟩ :=
    opens_on_records sound calm made worded all_fit ended held mode
  refine ⟨log, d₁, run, ?_, ?_, ?_⟩
  · rw [replay, length, Bytes.size_zeros, Record.size_images, all_def, List.length_append,
      List.length_replicate]
  · intro key
    have twelve : 0 < n / 12 ↔ 12 ≤ n := Nat.div_pos_iff.trans (by omega)
    rw [index, all_def, Record.lastValue?_append, Record.lastValue?_blanks]
    simp only [twelve]
    split
    · rw [Option.some_or]
    · rw [Option.none_or]
  · rw [file, images]

/-- Behind a record stand thirteen zero bytes, as if its file had been made longer. The first twelve
are read as an empty key with an empty value, and one byte is dropped. -/
theorem thirteen_zeros :
    ∃ (d d₁ : Disk) (log : Log),
      d.file? (["db"] ++ [fileName]) =
        some (Record.image ⟨"a".toUTF8, "1".toUTF8⟩ ++ Bytes.zeros 13) ∧
      openAt ⟨"db"⟩ .strict d = .ok log d₁ ∧ log.replay = ⟨2, 26, 1⟩ ∧
      log.index["a".toUTF8]? = some "1".toUTF8 ∧
      log.index[ByteArray.empty]? = some ByteArray.empty := by
  set a : Record := ⟨"a".toUTF8, "1".toUTF8⟩ with a_def
  have written : Record.encodeAll [a] = .ok a.image :=
    Record.encodeAll_singleton ⟨by decide, by decide⟩
  obtain ⟨d, sound, calm, made, held⟩ := exists_disk_with_file (a.image ++ Bytes.zeros 13)
  obtain ⟨log, d₁, opened, replay, index, -⟩ :=
    zeros_are_read_in_twelves sound calm made (by decide) written 13 held .strict
  refine ⟨d, d₁, log, held, opened, replay, ?_, ?_⟩
  · rw [index]
    decide
  · rw [index]
    decide

/-- A log file that holds twelve zero bytes and nothing else is opened with a record, and nothing of
it is dropped. -/
theorem twelve_zeros_are_kept :
    ∃ (d d₁ : Disk) (log : Log),
      d.file? (["db"] ++ [fileName]) = some (Bytes.zeros 12) ∧
      openAt ⟨"db"⟩ .strict d = .ok log d₁ ∧ log.replay = ⟨1, 12, 0⟩ ∧
      log.index[ByteArray.empty]? = some ByteArray.empty ∧
      d₁.file? (["db"] ++ [fileName]) = some (Bytes.zeros 12) := by
  have content : Record.images [Record.blank] ++ ByteArray.empty = Bytes.zeros 12 := by
    rw [Record.images_singleton, Record.image_blank, ByteArray.append_empty]
  obtain ⟨d, sound, calm, made, held⟩ :=
    exists_disk_with_file (Record.images [Record.blank] ++ ByteArray.empty)
  obtain ⟨log, d₁, opened, replay, index, file⟩ :=
    opens_on_records sound calm made (by decide)
      (List.forall_mem_singleton.2 Record.fits_blank) (Record.ended_of_short (by decide))
      held .strict
  rw [Record.images_singleton, Record.image_blank] at file
  rw [content] at held
  refine ⟨d, d₁, log, held, opened, replay, ?_, file⟩
  rw [index]
  decide

end Log

end FlatStore
