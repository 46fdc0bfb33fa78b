import FlatStore.Proofs.Log.Writing

/-! # Compacting a log

    Compaction has two halves. The first builds the side file and ends by
    renaming it over the log (`replaceLog`); the second takes the new file as
    the log (`adoptLog`).

    * If the first half fails, the log is as it was, whatever is left in the
      side file (`meets_replaceLog`).
    * If both succeed, the file is one record for each key (`meets_compact`).
    * Only the disk makes it fail: all records of an index are within the limits
      (`Intact.compact_fails`).
-/

namespace FlatStore

namespace LogStore

variable {s s' : LogStore} {records : List Record}

/-! ### Filling a file -/

/-- Records that were taken in one after the other make up one row. -/
theorem writeAll_spec (a : Appender) (records : List Record) (d : Disk) :
    ∃ e a' d', writeAll a records d = (e, a', d') ∧
      Disk.Changes (fun _ => False) (· = a.file) d d' ∧
      (e = none → a.Adds d (Record.images records) none a' d') ∧
      ((∀ r ∈ records, r.Fits) → d.Quiet → e = none) := by
  induction records generalizing a d with
  | nil =>
    refine ⟨none, a, d, rfl, .refl _ _ d, ?_, fun _ _ => rfl⟩
    intro _
    exact ⟨rfl, .refl _ _ d, ⟨ByteArray.empty, by simp⟩, fun _ => by simp [Record.images],
      fun _ => rfl⟩
  | cons r rest ih =>
    unfold writeAll
    cases encoded : r.encode with
    | error fault =>
      refine ⟨_, a, d, rfl, .refl _ _ d, by simp, fun fits => ?_⟩
      rw [Record.encode_of_fits (fits r List.mem_cons_self)] at encoded
      cases encoded
    | ok image =>
      obtain ⟨fits, rfl⟩ := Record.encode_eq_ok encoded
      obtain ⟨fault, a₁, d₁, written, adds⟩ := a.write_spec r.image d
      simp only [written]
      cases fault with
      | some fault => exact ⟨_, a₁, d₁, rfl, adds.changes, by simp, fun _ quiet =>
          absurd (adds.quiet quiet) (by simp)⟩
      | none =>
        -- The rest is taken in behind the first record, by an appender to the same file.
        obtain ⟨e, a₂, d₂, run, changes, all, able⟩ := ih a₁ d₁
        rw [adds.file] at changes
        exact ⟨e, a₂, d₂, run, adds.changes.trans changes,
          fun succeeded => adds.trans (all succeeded), fun fits quiet =>
          able (fun r' hr' => fits r' (List.mem_cons_of_mem r hr')) (adds.changes.quiet quiet)⟩

/-- A file that was empty holds the records and nothing else once it is filled. On a quiet disk it can
be filled with all records within the limits. -/
theorem meets_fill (d : Disk) (file : FileNumber) (records : List Record) :
    Meets (fun _ d' => Disk.Changes (fun _ => False) (· = file) d d' ∧
        d'.content file = d.content file ++ Record.images records)
      (fun _ d' => Disk.Changes (fun _ => False) (· = file) d d' ∧
        ((∀ r ∈ records, r.Fits) → ¬ d.Quiet)) (fill file records d) := by
  obtain ⟨e, a₁, d₁, written, changes, all, able⟩ := writeAll_spec { file } records d
  unfold fill
  rw [written]
  cases e with
  | some e => exact ⟨changes, fun fits quiet => absurd (able fits quiet) (by simp)⟩
  | none =>
    have adds := all rfl
    obtain ⟨fault, a₂, d₂, flushed, adds', empty⟩ := a₁.flush_spec d₁
    simp only [flushed]
    cases fault with
    | some fault =>
      exact ⟨(adds.trans adds').changes, fun _ quiet =>
        absurd (adds'.quiet (changes.quiet quiet)) (by simp)⟩
    | none =>
      have both := adds.trans adds'
      rw [ByteArray.append_empty] at both
      exact ⟨both.changes, both.content_of_flushed rfl (empty rfl)⟩

/-! ### The two halves -/

/-- Build the side file and rename it over the log. Gives the log as it was. -/
def replaceLog : EStateM Error LogStore Log := do
  reporting (onWriter (·.flush))
  let log := (← get).log
  reporting (onDisk (Disk.checkWording (log.location.join Log.sideName)))
  let side ← reporting (onDisk (Disk.createEmpty log.sidePath))
  onDisk (fill side log.index.records)
  reporting (onDisk Disk.sync)
  reporting (onDisk (Disk.rename log.sidePath log.path))
  return log

/-- Go on with the file that was renamed over the log. Gives the bytes saved. -/
def adoptLog (log : Log) : EStateM Error LogStore Nat := do
  reporting (onDisk Disk.sync)
  let file ← reporting (onDisk (Disk.openExisting log.path))
  let length := Record.totalLength log.index.records
  modify fun s => { s with log := { log with writer := { file }, unsynced := 0, length } }
  return log.length - length

theorem compact_eq : compact = (do adoptLog (← replaceLog)) := by
  unfold compact replaceLog adoptLog
  simp only [bind_assoc, pure_bind]

/-! ### The side file -/

/-- While the side file is built the log is as it was. -/
structure Prepared (s s' : LogStore) : Prop where
  log : s'.log = s.log
  sound : s'.disk.Sound
  named : s'.disk.lookup s.log.path = some (.file s.log.writer.file)
  content : s'.disk.content s.log.writer.file = s.disk.content s.log.writer.file
  beside : Disk.Beside s.log.directory s.disk s'.disk

theorem Intact.prepared (h : s.Intact records) : Prepared s s :=
  ⟨rfl, h.sound, h.named, rfl, .refl _ s.disk⟩

theorem Prepared.same (h : Prepared s s') {s'' : LogStore} (log : s''.log = s'.log)
    (same : Disk.Same s'.disk s''.disk) : Prepared s s'' where
  log := log.trans h.log
  sound := h.sound.keep same
  named := by rw [same.lookup_eq, h.named]
  content := by rw [same.content_eq, h.content]
  beside := h.beside.trans (.of_same same)

/-- A log whose side file was worked on is intact, and neither index, length nor file have
changed. -/
theorem Prepared.leftAlone (h : Prepared s s') (before : s.Intact records) :
    LeftAlone records s s' := by
  have stays : Stays s s' := ⟨by rw [h.log], by rw [h.log], h.beside⟩
  have intact : s'.Intact records := {
    sound := h.sound
    named := by rw [stays.path, h.log, h.named]
    content := by rw [h.log, h.content, before.content]
    fits := before.fits
    idle := by rw [h.log, before.idle]
    length := by rw [h.log, before.length]
    index := by rw [h.log]; exact before.index
    found := stays.found before.found
    worded := by rw [stays.location, before.worded] }
  refine ⟨intact, ⟨by rw [h.log], by rw [h.log], ?_⟩, stays⟩
  rw [before.file?, ← stays.path, intact.file?]

/-- The side file is open beside the log. -/
structure SideOpen (s s' : LogStore) (side : FileNumber) : Prop extends Prepared s s' where
  side_named : s'.disk.lookup s.log.sidePath = some (.file side)
  side_ne : side ≠ s.log.writer.file

theorem SideOpen.same {side : FileNumber} (h : SideOpen s s' side) {s'' : LogStore}
    (log : s''.log = s'.log) (same : Disk.Same s'.disk s''.disk) : SideOpen s s'' side :=
  ⟨h.toPrepared.same log same, by rw [same.lookup_eq, h.side_named], h.side_ne⟩

/-- A file at the side path leaves the log alone, whether it was there before or is new. -/
theorem Intact.sideOpen (h : s.Intact records) {side : FileNumber} {d' : Disk}
    (obtained : Disk.Obtained s.log.sidePath side s.disk d') :
    SideOpen s { s with disk := d' } side := by
  have side_ne : side ≠ s.log.writer.file := by
    -- The log file has just the one name, and it is not that of the side file.
    rintro rfl
    exact s.log.sidePath_ne_path (obtained.path_eq h.sound h.named).symm
  have named : d'.lookup s.log.path = some (.file s.log.writer.file) := by
    rw [obtained.changes.lookup _ s.log.sidePath_ne_path.symm, h.named]
  exact {
    log := rfl
    sound := obtained.sound h.sound
    named
    content := obtained.changes.content _ side_ne.symm
    beside := .of_obtained h.sound obtained (Or.inr rfl)
    side_named := obtained.named
    side_ne }

/-- Where a call fails and changes nothing, the log is left alone. -/
theorem Prepared.meets_call (h : Prepared s s') (before : s.Intact records) {α : Type}
    {good : α → Disk → Prop} {cause : Prop} {call : EStateM DiskFault Disk α}
    (called : Meets good (fun _ d' => Disk.Same s'.disk d' ∧ cause) (call s'.disk)) :
    Meets (fun a s'' => s''.log = s'.log ∧ good a s''.disk)
      (fun _ s'' => LeftAlone records s s'' ∧ cause) (reporting (onDisk call) s') := by
  apply meets_reporting
  refine (meets_onDisk s' called).mono ?_ ?_
  · intro _ s'' succeeded
    exact succeeded
  · intro _ s'' failed
    obtain ⟨log, same, cause⟩ := failed
    exact ⟨(h.same log same).leftAlone before, cause⟩

theorem Prepared.meets_sync (h : Prepared s s') (before : s.Intact records) :
    Meets (fun _ s'' => s''.log = s'.log ∧ Disk.Same s'.disk s''.disk)
      (fun _ s'' => LeftAlone records s s'' ∧ ¬ s'.disk.Calm) (reporting (onDisk Disk.sync) s') :=
  h.meets_call before (Disk.meets_proceed s'.disk)

/-- The path of the side file can be written out. -/
def SideWorded (s : LogStore) : Prop :=
  Disk.wordingFault? (s.log.location.join Log.sideName) = none

theorem Intact.meets_sideWording (h : s.Intact records) :
    Meets (fun _ s' => s.SideWorded ∧ s' = s)
      (fun _ s' => LeftAlone records s s' ∧ ¬ s.SideWorded)
      (reporting (onDisk (Disk.checkWording (s.log.location.join Log.sideName))) s) := by
  have checked : Meets (fun _ d' => s.SideWorded ∧ d' = s.disk)
      (fun _ d' => Disk.Same s.disk d' ∧ ¬ s.SideWorded)
      (Disk.checkWording (s.log.location.join Log.sideName) s.disk) := by
    refine (Disk.meets_checkWording _ s.disk).mono ?_ ?_
    · intro _ d' worded
      exact worded
    · intro _ d' refused
      obtain ⟨rfl, fault⟩ := refused
      exact ⟨.refl _ _ _, fault⟩
  refine (h.prepared.meets_call h checked).mono ?_ ?_
  · intro _ s' unchanged
    obtain ⟨log, worded, disk⟩ := unchanged
    refine ⟨worded, ?_⟩
    cases s'
    cases s
    simp only at log disk
    rw [log, disk]
  · intro _ s' alone
    exact alone

theorem Intact.meets_openSide (h : s.Intact records) :
    Meets (fun side s' => SideOpen s s' side ∧ s'.disk.content side = ByteArray.empty)
      (fun _ s' => LeftAlone records s s' ∧
        (¬ s.disk.Calm ∨ s.disk.lookup s.log.sidePath = some .directory))
      (reporting (onDisk (Disk.createEmpty s.log.sidePath)) s) := by
  refine (h.prepared.meets_call h (Disk.meets_createEmpty s.disk s.log.sidePath_ne_nil)).mono ?_ ?_
  · intro side s' created
    obtain ⟨log, obtained, content⟩ := created
    exact ⟨(h.sideOpen obtained).same log (.refl _ _ _), content⟩
  · intro _ s' alone
    exact alone

/-- Other bytes in the side file leave the log alone. -/
theorem SideOpen.rewrite {side : FileNumber} (h : SideOpen s s' side) {s'' : LogStore}
    (log : s''.log = s'.log)
    (changes : Disk.Changes (fun _ => False) (· = side) s'.disk s''.disk) :
    SideOpen s s'' side := by
  have beside : Disk.Beside s.log.directory s'.disk s''.disk := by
    refine .of_content h.sound changes (Or.inr rfl) ?_
    rintro n rfl
    exact h.side_named
  exact {
    log := log.trans h.log
    sound := h.sound.keep changes
    named := by rw [changes.lookup _ id, h.named]
    content := by rw [changes.content _ h.side_ne.symm, h.content]
    beside := h.beside.trans beside
    side_named := by rw [changes.lookup _ id, h.side_named]
    side_ne := h.side_ne }

/-! ### Replacing the log -/

/-- The side file has taken the place of the log file, with one record for each key. -/
structure Replaced (s s' : LogStore) (side : FileNumber) : Prop where
  log : s'.log = s.log
  sound : s'.disk.Sound
  named : s'.disk.lookup s.log.path = some (.file side)
  content : s'.disk.content side = Record.images s.log.index.records
  beside : Disk.Beside s.log.directory s.disk s'.disk
  side_ne : side ≠ s.log.writer.file
  gone : s'.disk.lookup s.log.sidePath = none
  worded : s.SideWorded

/-- A side file that was empty is filled with one record for each key. -/
theorem SideOpen.meets_fill {side : FileNumber} (h : SideOpen s s' side) (before : s.Intact records)
    (empty : s'.disk.content side = ByteArray.empty) :
    Meets (fun _ s'' => SideOpen s s'' side ∧
        s''.disk.content side = Record.images s.log.index.records)
      (fun _ s'' => LeftAlone records s s'' ∧
        ((∀ r ∈ s.log.index.records, r.Fits) → ¬ s'.disk.Quiet))
      (onDisk (fill side s.log.index.records) s') := by
  refine (meets_onDisk s' (LogStore.meets_fill s'.disk side s.log.index.records)).mono ?_ ?_
  · intro _ s'' filled
    obtain ⟨log, changes, content⟩ := filled
    rw [empty, ByteArray.empty_append] at content
    exact ⟨h.rewrite log changes, content⟩
  · intro _ s'' failed
    obtain ⟨log, changes, cause⟩ := failed
    exact ⟨(h.rewrite log changes).leftAlone before, cause⟩

/-- Renaming the filled side file puts it in the place of the log file. -/
theorem SideOpen.meets_rename {side : FileNumber} (h : SideOpen s s' side)
    (before : s.Intact records) (worded : s.SideWorded)
    (content : s'.disk.content side = Record.images s.log.index.records) :
    Meets (fun _ s'' => Replaced s s'' side) (fun _ s'' => LeftAlone records s s'' ∧ ¬ s'.disk.Calm)
      (reporting (onDisk (Disk.rename s.log.sidePath s.log.path)) s') := by
  have renamed := Disk.meets_rename h.side_named h.named s.log.sidePath_ne_path
  refine (h.meets_call before renamed).mono ?_ ?_
  · intro _ s'' renamed
    obtain ⟨log, changes, named, gone⟩ := renamed
    have beside : Disk.Beside s.log.directory s'.disk s''.disk := by
      refine .of_changes changes (fun p hp => hp.symm) (fun _ _ => False.elim) ?_
      intro p hp
      rcases hp with rfl | rfl
      · simp [h.side_named, gone]
      · simp [h.named, named]
    exact {
      log := log.trans h.log
      sound := h.sound.moved changes h.side_named named gone
      named := named
      content := by rw [changes.content _ id, content]
      beside := h.beside.trans beside
      side_ne := h.side_ne
      gone, worded }
  · intro _ s'' alone
    exact alone

theorem Intact.fits_index (h : s.Intact records) : ∀ r ∈ s.log.index.records, r.Fits := by
  intro r hr
  obtain ⟨⟨key, value⟩, mem, rfl⟩ := List.mem_map.1 hr
  have held := Std.TreeMap.mem_toList_iff_getElem?_eq_some.1 mem
  rw [h.index.getElem?_eq] at held
  exact h.fits _ (LogIndex.mem_of_getElem? held)

/-- On a quiet disk, and where no directory is in its place, the side file can be built. -/
def SideFree (s : LogStore) : Prop :=
  s.disk.Quiet ∧ s.SideWorded ∧ s.disk.lookup s.log.sidePath ≠ some .directory

/-- Where the side file could be built, it still can as long as the log stays. -/
theorem Stays.sideFree (h : Stays s s') (free : s.SideFree) : s'.SideFree := by
  obtain ⟨quiet, worded, apart⟩ := free
  refine ⟨h.beside.quiet quiet, ?_, ?_⟩
  · unfold SideWorded
    rw [h.location]
    exact worded
  · intro there
    have side : s'.log.sidePath = s.log.sidePath := by
      unfold Log.sidePath
      rw [h.directory]
    rw [side] at there
    exact apart ((h.beside.directories _).1 there)

/-- The first half of a compaction either gets the new file into place or leaves the log as it was. It
succeeds where the side file can be built. -/
theorem meets_replaceLog (h : s.Intact records) :
    Meets (fun log s' => log = s.log ∧ ∃ side, Replaced s s' side)
      (fun _ s' => LeftAlone records s s' ∧ ¬ s.SideFree) (replaceLog s) := by
  unfold replaceLog
  rw [EStateM.bind_of_ok (reporting_of_ok (flushWriter_of_idle h.idle)), EStateM.get_bind]
  -- Up to the rename the log is as it was, so wherever a call fails it still is.
  refine h.meets_sideWording.andThen ?_ ?_
  case refine_2 =>
    intro _ s₁ failed
    exact ⟨failed.1, fun free => failed.2 free.2.1⟩
  intro _ s₁ start
  obtain ⟨worded, rfl⟩ := start
  refine h.meets_openSide.andThen ?_ ?_
  case refine_2 =>
    intro _ s₂ failed
    exact ⟨failed.1, fun free => failed.2.elim (fun loud => loud free.1.1) free.2.2⟩
  intro side s₂ opened
  obtain ⟨opened, empty⟩ := opened
  refine (opened.meets_fill h empty).andThen ?_ ?_
  case refine_2 =>
    intro _ s₃ failed
    exact ⟨failed.1, fun free => failed.2 h.fits_index (opened.beside.quiet free.1)⟩
  intro _ s₃ filled
  obtain ⟨filled, content⟩ := filled
  refine (filled.meets_sync h).andThen ?_ ?_
  case refine_2 =>
    intro _ s₄ failed
    exact ⟨failed.1, fun free => failed.2 (filled.beside.calm free.1.1)⟩
  intro _ s₄ synced
  obtain ⟨log₄, same⟩ := synced
  rw [← same.content_eq] at content
  have synced := filled.same log₄ same
  refine (synced.meets_rename h worded content).andThen ?_ ?_
  case refine_2 =>
    intro _ s₅ failed
    exact ⟨failed.1, fun free => failed.2 (synced.beside.calm free.1.1)⟩
  intro _ s₅ replaced
  exact ⟨rfl, side, replaced⟩

/-! ### The whole of it -/

/-- The log that goes on with the file that was renamed over it. -/
def adopted (log : Log) (side : FileNumber) : Log :=
  { log with
    writer := { file := side }, unsynced := 0, length := Record.totalLength log.index.records }

/-- With the new file the log is in step, with one record for each key. -/
theorem Replaced.adopted {side : FileNumber} (replaced : Replaced s s' side)
    (h : s.Intact records) {d : Disk} (same : Disk.Same s'.disk d) :
    Intact ⟨d, LogStore.adopted s.log side⟩ s.log.index.records ∧
      Stays s ⟨d, LogStore.adopted s.log side⟩ := by
  have stays : Stays s ⟨d, LogStore.adopted s.log side⟩ :=
    ⟨rfl, rfl, replaced.beside.trans (.of_same same)⟩
  refine ⟨?_, stays⟩
  exact {
    sound := replaced.sound.keep same
    named := by rw [stays.path]; exact (same.lookup_eq _).trans replaced.named
    content := (same.content_eq side).trans replaced.content
    fits := h.fits_index
    idle := rfl
    length := rfl
    index := s.log.index.onePerKey_records.equiv.symm
    found := stays.found h.found
    worded := h.worded }

/-- Behind a compaction the log is in step with these records, one for each key, and there is no
side file. -/
structure Compacted (s : LogStore) (rs : List Record) (saved : Nat) (s' : LogStore) : Prop where
  intact : s'.Intact rs
  index : s'.log.index = s.log.index
  stays : Stays s s'
  one : s.log.index.OnePerKey rs
  gone : s'.disk.lookup s.log.sidePath = none
  worded : s.SideWorded
  saved : saved = s.log.length - Record.totalLength rs

/-- The second half of a compaction goes on with the new file. If it fails, the log goes on with the
old one. -/
theorem meets_adoptLog {side : FileNumber} (h : s.Intact records) (replaced : Replaced s s' side) :
    Meets (Compacted s s.log.index.records)
      (fun _ s'' => s''.log = s.log ∧ Disk.Same s'.disk s''.disk ∧ ¬ s'.disk.Calm)
      (adoptLog s.log s') := by
  unfold adoptLog
  refine (meets_reporting (meets_onDisk s' (Disk.meets_proceed s'.disk))).andThen ?_ ?_
  · intro _ s₁ synced
    obtain ⟨log₁, same₁⟩ := synced
    have named : s₁.disk.lookup s.log.path = some (.file side) := by
      rw [same₁.lookup_eq, replaced.named]
    refine (meets_reporting (meets_onDisk s₁ (Disk.meets_openExisting named))).andThen ?_ ?_
    · intro n s₂ opened
      obtain ⟨log₂, rfl, same₂⟩ := opened
      rw [EStateM.modify_bind]
      obtain ⟨intact, stays⟩ := replaced.adopted h (same₁.trans same₂)
      have gone : s₂.disk.lookup s.log.sidePath = none := by
        rw [same₂.lookup_eq, same₁.lookup_eq, replaced.gone]
      exact ⟨intact, rfl, stays, s.log.index.onePerKey_records, gone, replaced.worded, rfl⟩
    · intro _ s₂ failed
      obtain ⟨log₂, same₂, loud⟩ := failed
      refine ⟨?_, same₁.trans same₂, fun calm => loud (same₁.calm calm)⟩
      rw [log₂, log₁, replaced.log]
  · intro _ s₁ failed
    obtain ⟨log₁, same₁, loud⟩ := failed
    exact ⟨log₁.trans replaced.log, same₁, loud⟩

/-- Where the first half of a compaction succeeds, so does the second. -/
def Completes (s : LogStore) : Prop :=
  ∀ log s₁, replaceLog s = .ok log s₁ → ∃ saved s₂, adoptLog log s₁ = .ok saved s₂

theorem Intact.completes (h : s.Intact records) (calm : s.disk.Calm) : s.Completes := by
  intro log s₁ run
  obtain ⟨rfl, side, replaced⟩ := (meets_replaceLog h).of_ok run
  have adopted := meets_adoptLog h replaced
  cases run' : adoptLog s.log s₁ with
  | ok saved s₂ => exact ⟨saved, s₂, rfl⟩
  | error e s₂ => exact absurd (replaced.beside.calm calm) (adopted.of_error run').2.2

/-- Compaction leaves one record for each key. If it fails before the new file is in place, the log
is as it was. -/
theorem meets_compact (h : s.Intact records) (completes : s.Completes) :
    Meets (Compacted s s.log.index.records) (fun _ s' => LeftAlone records s s') (compact s) := by
  rw [compact_eq]
  have half := meets_replaceLog h
  cases run : replaceLog s with
  | error e s₁ =>
    rw [EStateM.bind_of_error run]
    exact (half.of_error run).1
  | ok log s₁ =>
    obtain ⟨rfl, side, replaced⟩ := half.of_ok run
    obtain ⟨saved, s₂, adopted⟩ := completes s.log s₁ run
    rw [EStateM.bind_of_ok run, adopted]
    exact (meets_adoptLog h replaced).of_ok adopted

/-- What a compaction has done that succeeded, even if it might not have. -/
theorem Intact.compacted {saved : Nat} (h : s.Intact records) (run : compact s = .ok saved s') :
    Compacted s s.log.index.records saved s' := by
  rw [compact_eq] at run
  cases half : replaceLog s with
  | error e s₁ =>
    rw [EStateM.bind_of_error half] at run
    cases run
  | ok log s₁ =>
    obtain ⟨rfl, side, replaced⟩ := (meets_replaceLog h).of_ok half
    rw [EStateM.bind_of_ok half] at run
    exact (meets_adoptLog h replaced).of_ok run

/-- Where the side file can be built, compaction succeeds. -/
theorem Intact.compact_succeeds (h : s.Intact records) (free : s.SideFree) :
    ∃ saved s', compact s = .ok saved s' := by
  rw [compact_eq]
  cases half : replaceLog s with
  | error e s₁ => exact absurd free ((meets_replaceLog h).of_error half).2
  | ok log s₁ =>
    rw [EStateM.bind_of_ok half]
    exact h.completes free.1.1 log s₁ half

/-! ### Failures -/

theorem reporting_fails {σ α : Type} (call : EStateM DiskFault σ α) (s : σ) :
    Meets (fun _ _ => True) (fun e _ => e.isIo = true) (reporting call s) := by
  unfold reporting
  cases call s with
  | ok a s' => trivial
  | error fault s' => exact rfl

/-- Records within the limits can be written out, so only the disk fails. -/
theorem writeAll_fails {a a' : Appender} {d d' : Disk} {e : Error} (fits : ∀ r ∈ records, r.Fits)
    (run : writeAll a records d = (some e, a', d')) : e.isIo = true := by
  induction records generalizing a d with
  | nil => cases run
  | cons r rest ih =>
    rw [writeAll, Record.encode_of_fits (fits r List.mem_cons_self)] at run
    simp only at run
    split at run
    · cases run
      rfl
    · exact ih (fun r' hr' => fits r' (List.mem_cons_of_mem r hr')) run

theorem fill_fails (file : FileNumber) (fits : ∀ r ∈ records, r.Fits) (d : Disk) :
    Meets (fun _ _ => True) (fun e _ => e.isIo = true) (fill file records d) := by
  unfold fill
  split
  · next e a' d' run => exact writeAll_fails fits run
  · split
    · exact rfl
    · trivial

/-- Compacting a log in step fails only for what the file system refuses. -/
theorem Intact.compact_fails (h : s.Intact records) :
    Meets (fun _ _ => True) (fun e _ => e.isIo = true) (compact s) := by
  unfold compact
  rw [EStateM.bind_of_ok (reporting_of_ok (flushWriter_of_idle h.idle)), EStateM.get_bind]
  refine (reporting_fails _ s).andThen (fun _ s₁ _ => ?_) fun _ _ => id
  refine (reporting_fails _ s₁).andThen (fun side s₂ _ => ?_) fun _ _ => id
  have filled := meets_onDisk s₂ (fill_fails side h.fits_index s₂.disk)
  refine filled.andThen (fun _ s₃ _ => ?_) fun _ _ => And.right
  refine (reporting_fails _ s₃).andThen (fun _ s₄ _ => ?_) fun _ _ => id
  refine (reporting_fails _ s₄).andThen (fun _ s₅ _ => ?_) fun _ _ => id
  refine (reporting_fails _ s₅).andThen (fun _ s₆ _ => ?_) fun _ _ => id
  exact (reporting_fails _ s₆).andThen (fun _ _ _ => trivial) fun _ _ => id

end LogStore

end FlatStore
