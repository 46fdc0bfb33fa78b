import FlatStore.Proofs.Log.Cut

/-! # Compactions that fail

    A compaction that fails can leave a log in two ways. Before the new file is
    in place, the log is as it was. Behind the rename, the log goes on with the
    old file, to which no path leads any more: it is **stranded**
    (`Stranded`). Its writes are still acknowledged, and opening the log again
    finds none of them.

    * `Stranded.writtenInOrder`: writes that are acknowledged leave the file in
      the log's place as it is.
    * `failed_compaction_keeps_or_strands`: which of the two it is depends on
      whether the new file was brought into place.
-/

namespace FlatStore

namespace LogStore

variable {s s' t : LogStore} {records ws acked : List Record}

/-- Whatever is written from now on and acknowledged, opening the log again finds it, and what the
index held before. -/
def Durable (s : LogStore) : Prop :=
  ∀ later s', writeInOrder later s = .ok () s' → ∀ mode log disk,
    Log.openAt s.log.location mode s'.release = .ok log disk →
    log.index.Equiv (later.foldl LogIndex.apply s.log.index)

theorem Intact.durable (h : s.Intact records) : s.Durable := by
  intro later s' run mode log disk opened
  obtain ⟨intact, index, stays⟩ := h.writtenInOrder run
  rw [← stays.location] at opened
  obtain ⟨same, -⟩ := intact.recovers.recovered mode log disk opened
  rwa [index] at same

/-- Other bytes in a file that is not the log's own leave the log in step. -/
theorem Intact.elsewhere (h : s.Intact records) {N : FileNumber → Prop} {d : Disk}
    (changes : Disk.Changes (fun _ => False) N s.disk d) (other : ¬ N s.log.writer.file) :
    Intact { s with disk := d } records where
  sound := h.sound.keep changes
  named := (changes.lookup _ id).trans h.named
  content := (changes.content _ other).trans h.content
  fits := h.fits
  idle := h.idle
  length := h.length
  index := h.index
  found := by
    refine ((Disk.meets_makeDirectories s.log.location s.disk).of_ok h.found).2 d ?_
      changes.workingDirectory
    intro p hp
    rw [changes.lookup p id, hp]
  worded := h.worded

/-! ### Stranded logs -/

/-- The log writes to a file that is not the one in its place. The latter is the file of another log,
which is in step. -/
structure Stranded (s t : LogStore) (records : List Record) : Prop where
  intact : t.Intact records
  disk : t.disk = s.disk
  location : t.log.location = s.log.location
  apart : t.log.writer.file ≠ s.log.writer.file
  idle : s.log.writer.pending = ByteArray.empty

/-- A write that is acknowledged does not come into the file that is in the log's place. -/
theorem Stranded.written (h : Stranded s t records) {key value : Bytes}
    (run : write key value s = .ok () s') :
    Stranded s' { t with disk := s'.disk } records ∧ s'.log.location = s.log.location := by
  obtain ⟨fits, synced, s₁, rfl, took, empty⟩ := write_eq_ok run
  have location : s₁.log.location = s.log.location := by rw [took.log]
  have file : s₁.log.writer.file = s.log.writer.file := took.adds.file
  have changes := took.adds.changes
  rw [← h.disk] at changes
  refine ⟨?_, location⟩
  exact {
    intact := h.intact.elsewhere changes h.apart
    disk := rfl
    location := h.location.trans location.symm
    apart := fun same => h.apart (same.trans file)
    idle := empty }

theorem Stranded.writtenInOrder (h : Stranded s t records)
    (run : writeInOrder ws s = .ok () s') :
    Stranded s' { t with disk := s'.disk } records ∧ s'.log.location = s.log.location := by
  induction ws generalizing s t with
  | nil =>
    cases run
    refine ⟨?_, rfl⟩
    rw [← h.disk]
    exact h
  | cons r rest ih =>
    obtain ⟨s₁, first, others⟩ := writeInOrder_cons.1 run
    obtain ⟨stranded, location⟩ := h.written first
    obtain ⟨last, location'⟩ := ih stranded others
    exact ⟨last, location'.trans location⟩

/-- Opening a stranded log again opens the file that is in its place. -/
theorem Stranded.meets_reopen (h : Stranded s t records) (mode : Durability) :
    Meets (fun log _ => log.index = LogIndex.ofRecords records) (fun _ _ => ¬ s.disk.Calm)
      (Log.openAt s.log.location mode s.release) := by
  have released : s.release = t.release := by
    rw [h.intact.release, h.disk, release, Appender.flush_of_empty h.idle]
  rw [← h.location, released, ← h.disk]
  refine (h.intact.meets_reopen mode).mono ?_ fun _ _ => id
  intro log d opened
  exact opened.2.1

/-- On a quiet disk a stranded log acknowledges a write that is not found again. -/
theorem Stranded.not_durable (h : Stranded s t records) (quiet : s.disk.Quiet) : ¬ s.Durable := by
  intro durable
  -- A value that the file in the log's place does not give.
  obtain ⟨r, fits, other⟩ : ∃ r : Record, r.Fits ∧
      (LogIndex.ofRecords records)[r.key]? ≠ some r.value := by
    by_cases held : (LogIndex.ofRecords records)[ByteArray.empty]? = some ByteArray.empty
    · refine ⟨⟨ByteArray.empty, ⟨#[0]⟩⟩, by constructor <;> decide, ?_⟩
      rw [held]
      decide
    · exact ⟨⟨ByteArray.empty, ByteArray.empty⟩, by constructor <;> decide, held⟩
  obtain ⟨s', written⟩ := write_succeeds quiet fits
  have run : writeInOrder [r] s = .ok () s' := writeInOrder_cons.2 ⟨s', written, rfl⟩
  obtain ⟨stranded, location⟩ := h.writtenInOrder run
  obtain ⟨-, synced, s₁, rfl, took, -⟩ := write_eq_ok written
  have reopened := stranded.meets_reopen .strict
  rw [location] at reopened
  cases opened : Log.openAt s.log.location .strict (s₁.acknowledge r synced).release with
  | error fault d => exact absurd (took.adds.changes.calm quiet.1) (reopened.of_error opened)
  | ok log d =>
    have found := (durable [r] _ run .strict log d opened).getElem?_eq (k := r.key)
    rw [reopened.of_ok opened, List.foldl_cons, List.foldl_nil, LogIndex.getElem?_apply,
      if_pos rfl] at found
    exact other found

/-! ### Failed compactions -/

/-- Behind the rename, a log that still has its old file is stranded. -/
theorem Replaced.stranded {side : FileNumber} {s₁ : LogStore} (replaced : Replaced s s₁ side)
    (h : s.Intact records) (log : s'.log = s.log) (same : Disk.Same s₁.disk s'.disk) :
    Stranded s' ⟨s'.disk, LogStore.adopted s.log side⟩ s.log.index.records where
  intact := (replaced.adopted h same).1
  disk := rfl
  location := by rw [log]; rfl
  apart := by rw [log]; exact replaced.side_ne
  idle := by rw [log]; exact h.idle

/-- The log on a disk of whose next calls the fifth fails. In a compaction to one short record that is
the sync behind the rename. -/
def failingFifth (s : LogStore) : LogStore :=
  Move.apply s (.provoke [none, none, none, none, some 0] none)

/-- On an empty disk a write is acknowledged, compacting fails at the sync behind the rename, and
another write is acknowledged. It is not found when the log is opened again. -/
theorem run_of_failing_sync :
    Meets (fun log d => Meets (fun _ s =>
        Meets (fun _ _ => True) (fun _ _ => False) (replaceLog s.failingFifth) ∧
        Meets (fun _ _ => False) (fun _ s₁ => s₁.log.location.text = "db" ∧
          (s₁.disk.mishaps = [] ∧ s₁.disk.sizeLimit = none) ∧
          Meets (fun _ s₂ => Meets (fun log' _ => log'.index["b".toUTF8]? = none) (fun _ _ => False)
              (Log.openAt ⟨"db"⟩ .strict s₂.release))
            (fun _ _ => False) (write "b".toUTF8 "2".toUTF8 s₁)) (compact s.failingFifth))
      (fun _ _ => False) (write "a".toUTF8 "1".toUTF8 ⟨d, log⟩))
    (fun _ _ => False) (Log.openAt ⟨"db"⟩ .strict {}) := by
  decide +kernel

/-- There is such a run. -/
theorem exists_failing_sync :
    ∃ s s₁ s₂ : LogStore, ∃ e log disk, Reachable [⟨"a".toUTF8, "1".toUTF8⟩] s ∧
      (∃ log s', replaceLog s = .ok log s') ∧ compact s = .error e s₁ ∧ s₁.disk.Quiet ∧
      write "b".toUTF8 "2".toUTF8 s₁ = .ok () s₂ ∧
      Log.openAt s₁.log.location .strict s₂.release = .ok log disk ∧
      log.index["b".toUTF8]? = none := by
  obtain ⟨log, d, opened, run⟩ := run_of_failing_sync.exists_ok
  obtain ⟨_, s, written, first, run⟩ := run.exists_ok
  obtain ⟨log₁, s', replaced, -⟩ := first.exists_ok
  obtain ⟨e, s₁, failed, location, quiet, run⟩ := run.exists_error
  obtain ⟨_, s₂, written₂, run⟩ := run.exists_ok
  obtain ⟨log₂, d₂, reopened, lost⟩ := run.exists_ok
  obtain ⟨start, -, calm, -⟩ := reachable_of_empty opened
  have one : Reachable [⟨"a".toUTF8, "1".toUTF8⟩] s := start.written calm written
  refine ⟨s.failingFifth, s₁, s₂, e, log₂, d₂, one.step (.provoke _ none) trivial,
    ⟨log₁, s', replaced⟩, failed, quiet, written₂, ?_, lost⟩
  rw [← location] at reopened
  exact reopened

/-- A compaction that fails before the new file is in place leaves the log durable, as it was. One
that fails behind that loses every later write: the log that is opened again has the writes that were
acknowledged before the compaction, and no others. -/
theorem failed_compaction_keeps_or_strands (h : Reachable acked s) {e : Error}
    (failed : compact s = .error e s') :
    ((∃ e₁ s₁, replaceLog s = .error e₁ s₁) →
      Reachable acked s' ∧ Unchanged s s' ∧ s'.Durable) ∧
    ((∃ log s₁, replaceLog s = .ok log s₁) →
      (∀ later s'', writeInOrder later s' = .ok () s'' → ∀ mode log disk,
        Log.openAt s.log.location mode s''.release = .ok log disk →
        log.index.Equiv (LogIndex.ofRecords acked)) ∧
      (s'.disk.Quiet → ¬ s'.Durable)) := by
  obtain ⟨records, intact, index⟩ := h.inStep
  have half := meets_replaceLog intact
  constructor
  · rintro ⟨e₁, s₁, first⟩
    have completes : s.Completes := by
      intro log s₂ run
      rw [first] at run
      cases run
    have alone := (meets_compact intact completes).of_error failed
    have next := h.step .compact completes
    rw [Move.acknowledged, Move.apply, failed, List.append_nil] at next
    exact ⟨next, alone.unchanged, alone.intact.durable⟩
  · rintro ⟨log, s₁, first⟩
    obtain ⟨rfl, side, replaced⟩ := half.of_ok first
    rw [compact_eq, EStateM.bind_of_ok first] at failed
    obtain ⟨log, same, -⟩ := (meets_adoptLog intact replaced).of_error failed
    have stranded := replaced.stranded intact log same
    refine ⟨?_, stranded.not_durable⟩
    intro later s'' run mode log' disk opened
    obtain ⟨last, location⟩ := stranded.writtenInOrder run
    have reopened := last.meets_reopen mode
    rw [location, log] at reopened
    rw [reopened.of_ok opened]
    exact s.log.index.onePerKey_records.equiv.trans index

/-- The sync behind the rename of a compaction fails, and every later write is lost. -/
theorem failing_sync_strands :
    ∃ s s₁ : LogStore, ∃ e, Reachable [⟨"a".toUTF8, "1".toUTF8⟩] s ∧ compact s = .error e s₁ ∧
      (∀ later s₂, writeInOrder later s₁ = .ok () s₂ → ∀ mode log disk,
        Log.openAt s.log.location mode s₂.release = .ok log disk →
        log.index.Equiv (LogIndex.ofRecords [⟨"a".toUTF8, "1".toUTF8⟩])) ∧ ¬ s₁.Durable := by
  obtain ⟨s, s₁, s₂, e, log, disk, reachable, replaced, failed, quiet, -⟩ := exists_failing_sync
  obtain ⟨lost, not_durable⟩ := (failed_compaction_keeps_or_strands reachable failed).2 replaced
  exact ⟨s, s₁, e, reachable, failed, lost, not_durable quiet⟩

/-- The write that was acknowledged behind the failed compaction is lost. -/
theorem compaction_failing_at_sync_loses_write :
    ∃ s s₁ s₂ : LogStore, ∃ e log disk, Reachable [⟨"a".toUTF8, "1".toUTF8⟩] s ∧
      compact s = .error e s₁ ∧ write "b".toUTF8 "2".toUTF8 s₁ = .ok () s₂ ∧
      Log.openAt s₁.log.location .strict s₂.release = .ok log disk ∧
      log.index["b".toUTF8]? = none ∧ ¬ s₁.Durable := by
  obtain ⟨s, s₁, s₂, e, log, disk, reachable, -, failed, -, written, opened, lost⟩ :=
    exists_failing_sync
  refine ⟨s, s₁, s₂, e, log, disk, reachable, failed, written, opened, lost, ?_⟩
  intro durable
  have run : writeInOrder [⟨"b".toUTF8, "2".toUTF8⟩] s₁ = .ok () s₂ :=
    writeInOrder_cons.2 ⟨s₂, written, rfl⟩
  have found := (durable _ s₂ run .strict log disk opened).getElem?_eq (k := "b".toUTF8)
  rw [lost, List.foldl_cons, List.foldl_nil, LogIndex.getElem?_apply, if_pos rfl] at found
  cases found

end LogStore

end FlatStore
