import FlatStore.Proofs.Log.FailedCompaction

/-! # What compaction reclaims

    A compaction writes one record for each key and drops the rest. Which
    order the records stand in is not laid down, so what is shown holds for
    every order.

    * `Compacted.inOrder`: with the records in another order the log is as much
      in step.
    * `Compacted.saved_add`: all that was superseded is reclaimed, and never
      more than the log had.
    * `compaction_reclaims_superseded`: what holds behind every compaction.
-/

namespace FlatStore

namespace LogStore

variable {s s' s'' : LogStore} {records rs rs' acked : List Record} {saved saved' : Nat}

/-! ### Any order of the records -/

/-- The log with these records in its file. -/
def inOrder (rs : List Record) (s : LogStore) : LogStore :=
  { s with disk := s.disk.setContent s.log.writer.file (Record.images rs) }

/-- A compaction might as well have written the records in another order. -/
theorem Compacted.inOrder (h : Compacted s rs saved s') (one : s.log.index.OnePerKey rs') :
    Compacted s rs' saved (s'.inOrder rs') := by
  have reordered := one.perm h.one
  have changes := s'.disk.changes_setContent s'.log.writer.file (Record.images rs')
  have length := Record.totalLength_of_perm reordered
  have stays : Stays s' (s'.inOrder rs') := h.intact.stays rfl rfl changes
  have index : (s'.inOrder rs').log.index.Equiv (LogIndex.ofRecords rs') := by
    show s'.log.index.Equiv _
    rw [h.index]
    exact one.equiv.symm
  exact {
    intact := h.intact.rewrite rfl rfl rfl changes (Disk.content_setContent ..)
      (fun r hr => h.intact.fits r (reordered.subset hr)) h.intact.idle
      (h.intact.length.trans length.symm) index
    index := h.index
    stays := h.stays.trans stays
    one
    gone := (changes.lookup _ id).trans h.gone
    worded := h.worded
    saved := by rw [h.saved, length] }

/-! ### Bytes -/

/-- The records of the keys take no more bytes than the log had. -/
theorem Intact.totalLength_le (h : s.Intact records) (one : s.log.index.OnePerKey rs) :
    Record.totalLength rs ≤ s.log.length := by
  obtain ⟨kept, reordered, sublist⟩ := (one.congr h.index).subperm
  rw [h.length, ← Record.totalLength_of_perm reordered]
  exact Record.totalLength_le_of_sublist sublist

/-- What is saved is all that the log has become shorter by. -/
theorem Compacted.saved_add (h : Compacted s rs saved s') (before : s.Intact records) :
    saved + s'.log.length = s.log.length := by
  have enough := before.totalLength_le h.one
  rw [h.saved, h.intact.length]
  omega

/-- There is nothing left for another compaction to save. -/
theorem Compacted.again (h : Compacted s rs saved s') (run : compact s' = .ok saved' s'') :
    saved' = 0 := by
  have next := h.intact.compacted run
  have one := next.one
  rw [h.index] at one
  have same := Record.totalLength_of_perm (one.perm h.one)
  rw [next.saved, h.intact.length, h.index, same, Nat.sub_self]

/-- Where no call fails, the side file can be built again. -/
theorem Compacted.sideFree (h : Compacted s rs saved s') (quiet : s'.disk.Quiet) : s'.SideFree := by
  refine ⟨quiet, ?_, ?_⟩
  · unfold SideWorded
    rw [h.stays.location]
    exact h.worded
  · have side : s'.log.sidePath = s.log.sidePath := by
      unfold Log.sidePath
      rw [h.stays.directory]
    rw [side, h.gone]
    exact nofun

/-! ### Compactions that succeed -/

/-- A compaction has saved these bytes, and left these records in the file. -/
structure Reclaimed (s : LogStore) (rs : List Record) (saved : Nat) (s' : LogStore) : Prop where
  index : s'.log.index = s.log.index
  onePerKey : s.log.index.OnePerKey rs
  encoded : ∀ r ∈ rs, r.encode = .ok r.image
  file? : s'.disk.file? s.log.path = some (Record.images rs)
  replay : (Replay.ofFile (Record.images rs)).1.Equiv s.log.index
  side_gone : s'.disk.lookup s.log.sidePath = none
  length : s'.log.length = (Record.images rs).size
  saved_add : saved + s'.log.length = s.log.length
  again : ∀ saved' s'', compact s' = .ok saved' s'' → saved' = 0
  again_succeeds : s'.disk.Quiet → ∃ s'', compact s' = .ok 0 s''
  /-- With the same writes behind it, opening the log gives what it would have given without the
  compaction. -/
  same_map : ∀ later t t', writeInOrder later s = .ok () t → writeInOrder later s' = .ok () t' →
    ∀ mode mode' log d log' d', Log.openAt s.log.location mode t.release = .ok log d →
      Log.openAt s.log.location mode' t'.release = .ok log' d' → log'.index.Equiv log.index
  goesOn : s.disk.Calm → s.GoesOn ∧ s'.GoesOn

theorem Compacted.reclaimed (h : Compacted s rs saved s') (before : s.Intact records) :
    Reclaimed s rs saved s' where
  index := h.index
  onePerKey := h.one
  encoded r hr := Record.encode_of_fits (h.intact.fits r hr)
  file? := by rw [← h.stays.path, h.intact.file?]
  replay := by
    show (LogIndex.ofRecords (Record.scan _).records).Equiv _
    rw [Record.scan_images h.intact.fits]
    exact h.one.equiv
  side_gone := h.gone
  length := by rw [h.intact.length, Record.size_images]
  saved_add := h.saved_add before
  again _ _ run := h.again run
  again_succeeds quiet := by
    obtain ⟨saved', s'', run⟩ := h.intact.compact_succeeds (h.sideFree quiet)
    obtain rfl := h.again run
    exact ⟨s'', run⟩
  same_map later t t' run run' mode mode' log d log' d' opened opened' := by
    -- Either log is opened again with its index and the later writes, and both have one index.
    have without := before.durable later t run mode log d opened
    rw [← h.stays.location] at opened'
    have behind := h.intact.durable later t' run' mode' log' d' opened'
    rw [h.index] at behind
    exact behind.trans without.symm
  goesOn calm := ⟨before.goesOn calm, h.intact.goesOn (h.stays.beside.calm calm)⟩

/-- Compaction succeeds where the side file can be built, and only the file system makes it fail. If
it succeeds, the index is as it was, the file has one record for each key with its value and nothing
else, and what is saved is what the log has become shorter by. Compacting at once again saves nothing,
and later writes are recovered as they would have been. All this holds for whichever order the records
are written in. -/
theorem compaction_reclaims_superseded (h : Reachable acked s) :
    (s.SideFree → ∃ saved s', compact s = .ok saved s') ∧
      (∀ e s', compact s = .error e s' → e.isIo = true) ∧
      ∀ saved s', compact s = .ok saved s' → Reclaimed s s.log.index.records saved s' ∧
        ∀ rs, s.log.index.OnePerKey rs → Reclaimed s rs saved (s'.inOrder rs) := by
  obtain ⟨records, intact, -⟩ := h.inStep
  refine ⟨intact.compact_succeeds, ?_, ?_⟩
  · intro e s' failed
    exact intact.compact_fails.of_error failed
  · intro saved s' run
    have compacted := intact.compacted run
    refine ⟨compacted.reclaimed intact, ?_⟩
    intro rs one
    exact (compacted.inOrder one).reclaimed intact

/-- From an empty disk two writes under one key, of eighteen bytes each: compacting saves those of the
first. -/
theorem run_of_superseded :
    Meets (fun log d => Meets (fun _ s₁ => Meets (fun _ s₂ => Meets (fun saved s' =>
          saved = 18 ∧ s'.log.length = 18) (fun _ _ => False) (compact s₂))
        (fun _ _ => False) (write "key".toUTF8 "new".toUTF8 s₁))
      (fun _ _ => False) (write "key".toUTF8 "old".toUTF8 ⟨d, log⟩))
    (fun _ _ => False) (Log.openAt ⟨"db"⟩ .strict {}) := by
  decide +kernel

/-- In that run the compaction leaves one record of eighteen bytes. -/
theorem superseded_value_is_reclaimed :
    ∃ s s' : LogStore,
      Reachable [⟨"key".toUTF8, "old".toUTF8⟩, ⟨"key".toUTF8, "new".toUTF8⟩] s ∧
      compact s = .ok 18 s' ∧ s.log.length = 36 ∧ Reclaimed s s.log.index.records 18 s' := by
  obtain ⟨log, d, opened, run⟩ := run_of_superseded.exists_ok
  obtain ⟨_, s₁, written₁, run⟩ := run.exists_ok
  obtain ⟨_, s₂, written₂, run⟩ := run.exists_ok
  obtain ⟨saved, s', compacted, rfl, length⟩ := run.exists_ok
  obtain ⟨start, intact, quiet⟩ := reachable_of_empty opened
  have one : Reachable [⟨"key".toUTF8, "old".toUTF8⟩] s₁ := start.written quiet.1 written₁
  have calm := (intact.written written₁).2.2.beside.calm quiet.1
  have two : Reachable [⟨"key".toUTF8, "old".toUTF8⟩, ⟨"key".toUTF8, "new".toUTF8⟩] s₂ :=
    one.written calm written₂
  have reclaimed := ((compaction_reclaims_superseded two).2.2 18 s' compacted).1
  have before := reclaimed.saved_add
  rw [length] at before
  exact ⟨s₂, s', two, compacted, before.symm, reclaimed⟩

end LogStore

end FlatStore
