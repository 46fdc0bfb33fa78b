import FlatStore.Proofs.Coherence
import FlatStore.Proofs.Log.Compaction
import FlatStore.Proofs.Log.Opening

/-! # Runs of a log

    A run opens a log in any directory and takes one move after the other:
    calls of the log, letting go of it and opening it again, and whatever makes
    later calls fail or is left behind in the side file. Beside the log, a run
    carries the writes that were acknowledged.

    * `InStep.step`: every move keeps the log in step.
    * `index_is_acknowledged`: the index is the map of the acknowledged writes,
      the file is a row of records that gives it, and opening again recovers
      it; calls that fail change nothing.
-/

namespace FlatStore

namespace LogStore

/-! ### Moves -/

/-- What can happen to a log. -/
inductive Move where
  | write (key value : Bytes)
  | read (key : Bytes)
  | flush
  | compact
  /-- Let go of the log and open it again. -/
  | reopen (mode : Durability)
  /-- Lay down which calls to come fail, and how long files may become. -/
  | provoke (mishaps : List (Option Nat)) (sizeLimit : Option Nat)
  /-- Leave these bytes in the side file. -/
  | litter (bytes : Bytes)

namespace Move

/-- A write that fails is rolled back, a compaction that fails does so before the new file is in
place, and only a log that can be opened again is let go of. -/
def Allowed (s : LogStore) : Move → Prop
  | write key value => s.RollsBack ⟨key, value⟩
  | compact => s.Completes
  | reopen mode => ∃ log disk, Log.openAt s.log.location mode s.release = .ok log disk
  | read _ | flush | provoke _ _ | litter _ => True

/-- The log after a move, whatever its outcome. -/
def apply (s : LogStore) : Move → LogStore
  | write key value => leftBy (LogStore.write key value s)
  | read key => leftBy ((ByteStore.read key : EStateM Error LogStore (Option Bytes)) s)
  | flush => leftBy (LogStore.flush s)
  | compact => leftBy (LogStore.compact s)
  | reopen mode =>
    match Log.openAt s.log.location mode s.release with
    | .ok log disk => { disk, log }
    | .error _ disk => { s with disk }
  | provoke mishaps sizeLimit => { s with disk := { s.disk with mishaps, sizeLimit } }
  | litter bytes => { s with disk := s.disk.alterFile s.log.sidePath fun _ => bytes }

/-- The writes that a move acknowledges. -/
def acknowledged (s : LogStore) : Move → List Record
  | write key value =>
    match LogStore.write key value s with
    | .ok () _ => [⟨key, value⟩]
    | .error _ _ => []
  | read _ | flush | compact | reopen _ | provoke _ _ | litter _ => []

end Move

/-- Logs that some run leads to, with the writes that were acknowledged: those that the first
opening found in the file, and those of the run. -/
inductive Reachable : List Record → LogStore → Prop where
  | start {d d' : Disk} {location : WrittenPath} {mode : Durability} {log : Log} (sound : d.Sound)
      (opened : Log.openAt location mode d = .ok log d') :
      Reachable (Record.scan (Log.contentIn log.directory d)).records ⟨d', log⟩
  | step {acked : List Record} {s : LogStore} (m : Move) (h : Reachable acked s)
      (allowed : m.Allowed s) : Reachable (acked ++ m.acknowledged s) (m.apply s)

/-! ### The invariant of a run -/

variable {s s' : LogStore} {records acked : List Record}

/-- Other mishaps and limits leave the log in step. -/
theorem Intact.provoke (h : s.Intact records) (mishaps : List (Option Nat))
    (sizeLimit : Option Nat) : (Move.apply s (.provoke mishaps sizeLimit)).Intact records where
  sound := ⟨h.sound.one_name, h.sound.below⟩
  named := h.named
  content := h.content
  fits := h.fits
  idle := h.idle
  length := h.length
  index := h.index
  found := ((Disk.meets_makeDirectories s.log.location s.disk).of_ok h.found).2 _ (fun _ => id) rfl
  worded := h.worded

/-- Whatever is left in the side file, the log is in step. -/
theorem Intact.litter (h : s.Intact records) (bytes : Bytes) :
    (Move.apply s (.litter bytes)).Intact records := by
  unfold Move.apply Disk.alterFile
  cases at_side : s.disk.lookup s.log.sidePath with
  | none =>
    have added := h.sideOpen ⟨s.disk.changes_addFile s.log.sidePath_ne_nil bytes,
      s.disk.lookup_addFile s.log.sidePath_ne_nil bytes,
      Or.inr ⟨at_side, Nat.le_refl _, Nat.lt_succ_self _⟩⟩
    exact (added.toPrepared.leftAlone h).intact
  | some entry =>
    cases entry with
    | directory => exact h
    | file side =>
      have changes : Disk.Changes (· = s.log.sidePath) (· = side) s.disk
          (s.disk.setContent side bytes) :=
        (s.disk.changes_setContent side bytes).mono (fun _ => False.elim) fun _ => id
      have set := h.sideOpen ⟨changes, at_side, Or.inl at_side⟩
      exact (set.toPrepared.leftAlone h).intact

/-- A log in step whose index is the map of the acknowledged writes. -/
structure InStep (acked : List Record) (s : LogStore) (records : List Record) : Prop where
  intact : s.Intact records
  acked : s.log.index.Equiv (LogIndex.ofRecords acked)

/-- A log with the same index is as much in step. -/
theorem InStep.keep {records' : List Record} (h : InStep acked s records)
    (intact : s'.Intact records')
    (index : s'.log.index = s.log.index) : InStep (acked ++ []) s' records' := by
  refine ⟨intact, ?_⟩
  rw [index, List.append_nil]
  exact h.acked

/-- A write is acknowledged exactly if it is in the log. -/
theorem InStep.write (h : InStep acked s records) (key value : Bytes)
    (allowed : (Move.write key value).Allowed s) :
    ∃ records', InStep (acked ++ Move.acknowledged s (.write key value))
      (Move.apply s (.write key value)) records' := by
  have written := meets_write h.intact key value allowed
  rw [Move.acknowledged, Move.apply]
  cases run : LogStore.write key value s with
  | ok _ s₁ =>
    obtain ⟨intact, index, -⟩ := written.of_ok run
    refine ⟨records ++ [(⟨key, value⟩ : Record)], intact, ?_⟩
    show s₁.log.index.Equiv _
    rw [index, LogIndex.ofRecords_concat]
    exact LogIndex.apply_equiv h.acked _
  | error e s₁ =>
    obtain ⟨⟨intact, unchanged, -⟩, -⟩ := written.of_error run
    exact ⟨records, h.keep intact unchanged.index⟩

theorem InStep.flush (h : InStep acked s records) :
    InStep (acked ++ []) (Move.apply s .flush) records := by
  have flushed := meets_flush h.intact
  rw [Move.apply]
  cases run : LogStore.flush s with
  | ok _ s₁ =>
    obtain ⟨intact, unchanged, -⟩ := flushed.of_ok run
    exact h.keep intact unchanged.index
  | error e s₁ =>
    obtain ⟨⟨intact, unchanged, -⟩, -⟩ := flushed.of_error run
    exact h.keep intact unchanged.index

/-- A compaction writes other records with the same map. -/
theorem InStep.compact (h : InStep acked s records) (allowed : Move.compact.Allowed s) :
    ∃ records', InStep (acked ++ []) (Move.apply s .compact) records' := by
  have compacted := meets_compact h.intact allowed
  rw [Move.apply]
  cases run : LogStore.compact s with
  | ok _ s₁ =>
    -- One record for each key is left, and the map is the same.
    obtain ⟨intact, index, -⟩ := compacted.of_ok run
    exact ⟨s.log.index.records, h.keep intact index⟩
  | error e s₁ =>
    obtain ⟨intact, unchanged, -⟩ := compacted.of_error run
    exact ⟨records, h.keep intact unchanged.index⟩

/-- Opening again reads the same records. -/
theorem InStep.reopen (h : InStep acked s records) (mode : Durability)
    (allowed : (Move.reopen mode).Allowed s) :
    InStep (acked ++ []) (Move.apply s (.reopen mode)) records := by
  obtain ⟨log, disk, opened⟩ := allowed
  obtain ⟨intact, index, -⟩ := (h.intact.meets_reopen mode).of_ok opened
  rw [Move.apply, opened]
  refine ⟨intact, ?_⟩
  show log.index.Equiv (LogIndex.ofRecords (acked ++ []))
  rw [index, List.append_nil]
  exact h.intact.index.symm.trans h.acked

/-- Every move keeps the log in step. -/
theorem InStep.step (h : InStep acked s records) {m : Move} (allowed : m.Allowed s) :
    ∃ records', InStep (acked ++ m.acknowledged s) (m.apply s) records' := by
  cases m with
  | write key value => exact h.write key value allowed
  | read key => exact ⟨records, h.keep h.intact rfl⟩
  | flush => exact ⟨records, h.flush⟩
  | compact => exact h.compact allowed
  | reopen mode => exact ⟨records, h.reopen mode allowed⟩
  | provoke mishaps sizeLimit => exact ⟨records, h.keep (h.intact.provoke mishaps sizeLimit) rfl⟩
  | litter bytes => exact ⟨records, h.keep (h.intact.litter bytes) rfl⟩

/-- Along every run the log is in step. -/
theorem Reachable.inStep (h : Reachable acked s) : ∃ records, InStep acked s records := by
  induction h with
  | start sound opened =>
    obtain ⟨intact, index, -⟩ := (Log.meets_openAt sound _ _).of_ok opened
    refine ⟨_, intact, ?_⟩
    show Std.TreeMap.Equiv _ _
    rw [index]
  | step m _ allowed ih =>
    obtain ⟨records, inStep⟩ := ih
    exact inStep.step allowed

/-! ### What a run can rely on -/

/-- Letting go of the log and opening it again recovers the index and discards nothing; it succeeds
where no mishap is due. -/
structure Recovers (s : LogStore) : Prop where
  recovered : ∀ mode log disk, Log.openAt s.log.location mode s.release = .ok log disk →
    log.index.Equiv s.log.index ∧ log.replay.discardedBytes = 0
  succeeds : ∀ mode, s.disk.Calm →
    ∃ log disk, Log.openAt s.log.location mode s.release = .ok log disk

theorem Intact.recovers (h : s.Intact records) : s.Recovers := by
  constructor
  · intro mode log disk opened
    obtain ⟨-, index, replay, -⟩ := (h.meets_reopen mode).of_ok opened
    rw [index, replay]
    exact ⟨h.index.symm, rfl⟩
  · intro mode calm
    have reopened := h.meets_reopen mode
    cases run : Log.openAt s.log.location mode s.release with
    | ok log disk => exact ⟨log, disk, rfl⟩
    | error fault disk => exact absurd calm (reopened.of_error run)

/-- Along every run the index is the map of the acknowledged writes in order, and the log file is
a row of complete records whose replay gives that map; its length is the one that is kept. Opening
again recovers the index and discards nothing. A write or a compaction that fails changes neither
the index nor the length nor the bytes of the log file, whatever is in the side file. -/
theorem index_is_acknowledged (h : Reachable acked s) :
    s.log.index.Equiv (LogIndex.ofRecords acked) ∧
      (∃ records, (∀ r ∈ records, r.encode = .ok r.image) ∧
        s.disk.file? s.log.path = some (Record.images records) ∧
        (Replay.ofFile (Record.images records)).1.Equiv s.log.index ∧
        s.log.length = (Record.images records).size) ∧
      s.Recovers ∧
      (∀ key value e s', s.RollsBack ⟨key, value⟩ → write key value s = .error e s' →
        Unchanged s s') ∧
      (∀ e s', s.Completes → compact s = .error e s' → Unchanged s s') := by
  obtain ⟨records, intact, index⟩ := h.inStep
  refine ⟨index, ⟨records, fun r hr => Record.encode_of_fits (intact.fits r hr), intact.file?, ?_,
    ?_⟩, intact.recovers, ?_, ?_⟩
  · show (LogIndex.ofRecords (Record.scan _).records).Equiv _
    rw [Record.scan_images intact.fits]
    exact intact.index.symm
  · rw [intact.length, Record.size_images]
  · intro key value e s' rolls failed
    exact ((meets_write intact key value rolls).of_error failed).1.unchanged
  · intro e s' completes failed
    exact ((meets_compact intact completes).of_error failed).unchanged

/-- A run that starts on an empty disk starts without writes, and stays quiet. -/
theorem reachable_of_empty {location : WrittenPath} {mode : Durability} {log : Log} {d : Disk}
    (opened : Log.openAt location mode {} = .ok log d) :
    Reachable [] ⟨d, log⟩ ∧ Intact ⟨d, log⟩ [] ∧ d.Quiet := by
  have start := Reachable.start Disk.sound_empty opened
  obtain ⟨intact, -, -, quiet⟩ := (Log.meets_openAt Disk.sound_empty _ _).of_ok opened
  rw [Log.contentIn_empty, Record.scan_empty] at start intact
  exact ⟨start, intact, quiet ⟨rfl, rfl⟩⟩

/-- A write that is acknowledged on a calm disk is one more move of a run. -/
theorem Reachable.written (h : Reachable acked s) (calm : s.disk.Calm) {r : Record}
    (run : LogStore.write r.key r.value s = .ok () s') : Reachable (acked ++ [r]) s' := by
  obtain ⟨records, intact, -⟩ := h.inStep
  have next := h.step (.write r.key r.value) (intact.rollsBack calm r)
  rwa [Move.acknowledged, Move.apply, run] at next

/-- From an empty disk: a write, then one that is cut off after three bytes. The log holds the first
write only, and can still be opened again. -/
theorem index_after_torn_write :
    ∃ s s' : LogStore, ∃ e : Error,
      Reachable [⟨"key".toUTF8, "old".toUTF8⟩] s ∧
      write "key".toUTF8 "new".toUTF8 s = .error e s' ∧ Unchanged s s' ∧
      Reachable [⟨"key".toUTF8, "old".toUTF8⟩] s' ∧
      s'.log.index.Equiv (LogIndex.ofRecords [⟨"key".toUTF8, "old".toUTF8⟩]) ∧ s'.Recovers := by
  set old : Record := ⟨"key".toUTF8, "old".toUTF8⟩ with old_def
  set new : Record := ⟨"key".toUTF8, "new".toUTF8⟩ with new_def
  have old_fits : old.Fits := by constructor <;> decide
  have new_fits : new.Fits := by constructor <;> decide
  have made : Disk.makeDirectories ⟨"db"⟩ {} = .ok ["db"] _ := rfl
  obtain ⟨log, d, opened, -⟩ :=
    Log.openAt_succeeds Disk.sound_empty rfl made (by decide) (by decide) .strict
  obtain ⟨start, intact₀, quiet⟩ := reachable_of_empty opened
  -- The first write reaches the file.
  obtain ⟨s₁, succeeded⟩ := write_succeeds (s := ⟨d, log⟩) quiet old_fits
  have first : Reachable [old] s₁ := start.written quiet.1 succeeded
  -- The second one is cut off and rolled back.
  have intact₂ := (intact₀.written succeeded).1.provoke [some 3] none
  have due := first.step (.provoke [some 3] none) trivial
  obtain ⟨rolls', e, s', failed⟩ := intact₂.write_of_cut rfl new_fits (by decide)
  have last := due.step (.write new.key new.value) rolls'
  rw [Move.acknowledged, Move.apply, failed] at last
  obtain ⟨-, -, -, unchanged, -⟩ := index_is_acknowledged due
  obtain ⟨index, -, recovers, -⟩ := index_is_acknowledged last
  exact ⟨_, s', e, due, failed, unchanged _ _ e s' rolls' failed, last, index, recovers⟩

end LogStore

end FlatStore
