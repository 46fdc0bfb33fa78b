import FlatStore.Proofs.Log.Run
import FlatStore.Proofs.Record.Cut

/-! # Logs that are cut off

    A process that ends in the middle of its work can leave a log file that
    stops anywhere behind its last synced byte. Opening such a log finds the
    acknowledged writes in order up to the first one that is not whole.

    * `Intact.reopen_cut`: the file is cut back to whole records, so the log
      that was opened is in step again.
    * `cut_recovers_whole_writes`: of the writes that were appended last, those
      that are whole are recovered, the bytes behind them are dropped, and
      later writes go on from there.
-/

namespace FlatStore

namespace LogStore

variable {s s' : LogStore} {records ws : List Record}

/-! ### Writing records in a row -/

/-- Write records one after the other, up to the first write that fails. -/
def writeInOrder : List Record → EStateM Error LogStore Unit
  | [] => return ()
  | r :: rest => do
    write r.key r.value
    writeInOrder rest

/-- A row of writes is acknowledged if the first one is, and then the others. -/
theorem writeInOrder_cons {r : Record} : writeInOrder (r :: ws) s = .ok () s' ↔
    ∃ s₁, write r.key r.value s = .ok () s₁ ∧ writeInOrder ws s₁ = .ok () s' := by
  rw [writeInOrder]
  cases first : write r.key r.value s with
  | error e s₁ =>
    rw [EStateM.bind_of_error first]
    constructor
    · intro run
      cases run
    · rintro ⟨s₁, written, -⟩
      cases written
  | ok _ s₁ =>
    rw [EStateM.bind_of_ok first]
    constructor
    · intro run
      exact ⟨s₁, rfl, run⟩
    · rintro ⟨s₁, written, run⟩
      cases written
      exact run

/-- Records whose writes were all acknowledged are in the log, in order. -/
theorem Intact.writtenInOrder (h : s.Intact records) (run : writeInOrder ws s = .ok () s') :
    s'.Intact (records ++ ws) ∧ s'.log.index = ws.foldl LogIndex.apply s.log.index ∧
      Stays s s' := by
  induction ws generalizing s records with
  | nil =>
    cases run
    rw [List.append_nil]
    exact ⟨h, rfl, .refl _⟩
  | cons r rest ih =>
    obtain ⟨s₁, first, others⟩ := writeInOrder_cons.1 run
    obtain ⟨intact₁, index₁, stays₁⟩ := h.written first
    obtain ⟨intact, index, stays⟩ := ih intact₁ others
    rw [List.append_assoc, List.singleton_append] at intact
    refine ⟨intact, ?_, stays₁.trans stays⟩
    rw [index, index₁, List.foldl_cons]

/-- On a quiet disk all records within the limits are written. -/
theorem Intact.writeInOrder_succeeds (h : s.Intact records) (quiet : s.disk.Quiet)
    (fits : ∀ r ∈ ws, r.Fits) : ∃ s', writeInOrder ws s = .ok () s' := by
  induction ws generalizing s records with
  | nil => exact ⟨s, rfl⟩
  | cons r rest ih =>
    obtain ⟨s₁, first⟩ := write_succeeds quiet (fits r List.mem_cons_self)
    obtain ⟨intact₁, -, stays₁⟩ := h.written first
    obtain ⟨s', others⟩ := ih intact₁ (stays₁.beside.quiet quiet) fun r' hr =>
      fits r' (List.mem_cons_of_mem r hr)
    exact ⟨s', writeInOrder_cons.2 ⟨s₁, first, others⟩⟩

/-! ### Opening behind a cut -/

/-- The disk with the log file cut off at a length. -/
def cutOff (s : LogStore) (length : Nat) : Disk :=
  s.disk.alterFile s.log.path fun content => content.extract 0 length

/-- A log whose file was cut off is opened with the records that are whole, and the file is cut back
to them. -/
theorem Intact.reopen_cut {kept rest : List Record} (h : s.Intact (kept ++ rest))
    (calm : s.disk.Calm) {cut : Nat} (bounded : cut ≤ s.log.length)
    (enough : Record.totalLength kept ≤ cut)
    (torn : ∀ r ∈ rest.head?, cut < Record.totalLength kept + r.encodedLength)
    (mode : Durability) :
    ∃ log disk, Log.openAt s.log.location mode (s.cutOff cut) = .ok log disk ∧
      Intact ⟨disk, log⟩ kept ∧ log.index = LogIndex.ofRecords kept ∧
      log.replay = ⟨kept.length, Record.totalLength kept, cut - Record.totalLength kept⟩ ∧
      Stays s ⟨disk, log⟩ := by
  rw [h.length] at bounded
  set b := (Record.images (kept ++ rest)).extract 0 cut with hb
  -- Only the bytes of the log file have changed.
  have cut_eq : s.cutOff cut = s.disk.setContent s.log.writer.file b := by
    unfold cutOff Disk.alterFile
    simp only [h.named, h.content, hb]
  have changes := s.disk.changes_setContent s.log.writer.file b
  rw [← cut_eq] at changes
  have stays₁ : Stays s { s with disk := s.cutOff cut } := h.stays rfl rfl changes
  have held : (s.cutOff cut).file? (s.log.directory ++ [Log.fileName]) = some b := by
    have named : (s.cutOff cut).lookup (s.log.directory ++ [Log.fileName]) =
        some (.file s.log.writer.file) := (changes.lookup _ id).trans h.named
    rw [Disk.file?, named, cut_eq]
    exact congrArg some (Disk.content_setContent ..)
  have scanned : Record.scan b = ⟨kept, Record.totalLength kept, _⟩ :=
    Record.scan_cut h.fits bounded enough torn
  have size : b.size = cut := by
    rw [hb, ByteArray.size_extract, Record.size_images]
    omega
  obtain ⟨log, d, run, intact, opened, content⟩ := Log.openAt_on_file (h.sound.keep changes)
    (changes.calm calm) (stays₁.found h.found) h.worded held mode
  have stays : Stays s ⟨d, log⟩ :=
    ⟨opened.at_location, opened.at_directory, stays₁.beside.trans opened.beside⟩
  rw [scanned] at intact
  refine ⟨log, d, run, intact, ?_, ?_, stays⟩
  · rw [opened.index, content, scanned]
  · rw [opened.replay, content]
    simp only [Replay.ofFile, scanned, size]

/-! ### What is recovered -/

/-- The log that was opened behind a cut holds the first `k` of the records `ws`, which were written
behind what `s` held, and no others; what the file held behind them is gone. -/
structure Recovered (s s' : LogStore) (ws : List Record) (cut k : Nat) (log : Log) (disk : Disk) :
    Prop where
  some_written : k ≤ ws.length
  /-- The first `k` records lie in front of the cut. -/
  whole : s.log.length + Record.totalLength (ws.take k) ≤ cut
  /-- No more of them do. -/
  largest : ∀ j, j ≤ ws.length → s.log.length + Record.totalLength (ws.take j) ≤ cut → j ≤ k
  index : log.index.Equiv ((ws.take k).foldl LogIndex.apply s.log.index)
  length : log.length = s.log.length + Record.totalLength (ws.take k)
  discarded : log.replay.discardedBytes = cut - log.length
  file : ∃ content, s'.disk.file? s.log.path = some content ∧
    disk.file? s.log.path = some (content.extract 0 log.length)

/-- From a log in step, writes go on: on a quiet disk all records within the limits are written, and
what was written is recovered when the log is opened again. -/
structure GoesOn (s : LogStore) : Prop where
  writes : s.disk.Quiet → ∀ later : List Record, (∀ r ∈ later, r.Fits) →
    ∃ s', writeInOrder later s = .ok () s'
  recovers : ∀ later s', writeInOrder later s = .ok () s' → ∀ mode,
    ∃ log disk, Log.openAt s.log.location mode s'.release = .ok log disk ∧
      log.index.Equiv (later.foldl LogIndex.apply s.log.index) ∧ log.replay.discardedBytes = 0

theorem Intact.goesOn (h : s.Intact records) (calm : s.disk.Calm) : s.GoesOn where
  writes quiet _ fits := h.writeInOrder_succeeds quiet fits
  recovers later s' run mode := by
    obtain ⟨intact, index, stays⟩ := h.writtenInOrder run
    obtain ⟨recovered, succeeds⟩ := intact.recovers
    obtain ⟨log, disk, opened⟩ := succeeds mode (stays.beside.calm calm)
    obtain ⟨same, discarded⟩ := recovered mode log disk opened
    rw [stays.location] at opened
    rw [index] at same
    exact ⟨log, disk, opened, same, discarded⟩

/-- A log file that is cut off anywhere behind its first `s.log.length` bytes can be opened. Of the
records that were written behind those bytes, the log has just those that lie in front of the cut
as a whole; the rest of the file is counted as discarded, and removed. Later writes go on from there,
and are recovered in turn. -/
theorem cut_recovers_whole_writes {acked : List Record} (h : Reachable acked s)
    (written : writeInOrder ws s = .ok () s') (calm : s'.disk.Calm) {cut : Nat}
    (behind : s.log.length ≤ cut) (within : cut ≤ s'.log.length) (mode : Durability) :
    ∃ k log disk, Log.openAt s.log.location mode (s'.cutOff cut) = .ok log disk ∧
      Recovered s s' ws cut k log disk ∧ GoesOn ⟨disk, log⟩ := by
  obtain ⟨records, intact, -⟩ := h.inStep
  obtain ⟨intact', -, stays⟩ := intact.writtenInOrder written
  -- The first `k` of the records fit into the room behind the old ones.
  obtain ⟨k, bound, enough, torn⟩ := Record.exists_whole ws (cut - s.log.length)
  have length := intact.length
  have split : records ++ ws = (records ++ ws.take k) ++ ws.drop k := by
    rw [List.append_assoc, List.take_append_drop]
  rw [split] at intact'
  have kept : Record.totalLength (records ++ ws.take k) =
      s.log.length + Record.totalLength (ws.take k) := by
    rw [Record.totalLength_append, length]
  obtain ⟨log, disk, opened, last, index, replay, stays'⟩ :=
    intact'.reopen_cut calm within (by omega)
      (fun r hr => by have := torn r hr; omega) mode
  rw [stays.location] at opened
  refine ⟨k, log, disk, opened, ?_, last.goesOn (stays'.beside.calm calm)⟩
  have log_length : log.length = s.log.length + Record.totalLength (ws.take k) :=
    last.length.trans kept
  exact {
    some_written := bound
    whole := by omega
    largest := fun j hj fits => Record.le_of_whole torn hj (by omega)
    index := by
      rw [index, LogIndex.ofRecords, List.foldl_append]
      exact LogIndex.foldl_apply_equiv intact.index.symm _
    length := log_length
    discarded := by rw [replay, log_length, kept]
    file := by
      refine ⟨_, stays.path ▸ intact'.file?, ?_⟩
      have path : log.path = s.log.path := (stays.trans stays').path
      rw [← path, last.file?, log_length, ← kept, ← Record.size_images,
        Record.images_append (records ++ ws.take k), ByteArray.extract_append_eq_left rfl] }

/-- Two values were written under one key, and the file is cut off behind the lengths and one byte of
the second record: the first value is found again, and nine bytes are dropped. -/
theorem cut_recovers_older_value :
    ∃ s s' : LogStore, ∃ log disk, Reachable [] s ∧
      writeInOrder [⟨"key".toUTF8, "old".toUTF8⟩, ⟨"key".toUTF8, "new".toUTF8⟩] s = .ok () s' ∧
      Log.openAt s.log.location .strict (s'.cutOff (s.log.length + 27)) = .ok log disk ∧
      log.index.Equiv (s.log.index.apply ⟨"key".toUTF8, "old".toUTF8⟩) ∧
      log.replay.discardedBytes = 9 ∧ GoesOn ⟨disk, log⟩ := by
  set old : Record := ⟨"key".toUTF8, "old".toUTF8⟩ with old_def
  set new : Record := ⟨"key".toUTF8, "new".toUTF8⟩ with new_def
  have old_length : old.encodedLength = 18 := by decide
  have new_length : new.encodedLength = 18 := by decide
  have made : Disk.makeDirectories ⟨"db"⟩ {} = .ok ["db"] _ := rfl
  obtain ⟨log₀, d, opened, -⟩ :=
    Log.openAt_succeeds Disk.sound_empty rfl made (by decide) (by decide) .strict
  obtain ⟨start, intact, quiet⟩ := reachable_of_empty opened
  have fits : ∀ r ∈ [old, new], r.Fits := by
    intro r hr
    simp only [List.mem_cons, List.not_mem_nil, or_false] at hr
    rcases hr with rfl | rfl <;> constructor <;> decide
  obtain ⟨s', written⟩ := intact.writeInOrder_succeeds quiet fits
  obtain ⟨intact', -, stays⟩ := intact.writtenInOrder written
  have ends : s'.log.length = log₀.length + 36 := by
    rw [intact'.length, Record.totalLength_append, ← intact.length]
    simp [old_length, new_length]
  have calm := stays.beside.calm quiet.1
  have within : log₀.length ≤ log₀.length + 27 ∧ log₀.length + 27 ≤ s'.log.length := by omega
  obtain ⟨k, log, disk, opened', recovered, goesOn⟩ :=
    cut_recovers_whole_writes start written calm within.1 within.2 .strict
  -- The first record fits in front of the cut, and the second does not.
  obtain rfl : k = 1 := by
    have least := recovered.largest 1 (by simp) (by simp [old_length])
    have most := recovered.whole
    have bound := recovered.some_written
    have two : k ≠ 2 := by
      rintro rfl
      simp [old_length, new_length] at most
    simp only [List.length_cons, List.length_nil] at bound
    omega
  have length := recovered.length
  have discarded := recovered.discarded
  simp only [List.take_succ_cons, List.take_zero, Record.totalLength_cons,
    Record.totalLength_nil, old_length] at length
  exact ⟨_, s', log, disk, start, written, opened', recovered.index, by omega, goesOn⟩

end LogStore

end FlatStore
