import FlatStore.Proofs.Log.Intact

/-! # Writing to a log

    A write appends one record. Where it fails and the file can be cut back,
    the log is as before, however much of the record had reached the file
    (`meets_write`).
-/

namespace FlatStore

namespace LogStore

variable {s s' : LogStore} {records : List Record}

/-! ### Parts of a call -/

theorem meets_onDisk (s : LogStore) {ε α : Type} {good : α → Disk → Prop} {bad : ε → Disk → Prop}
    {call : EStateM ε Disk α} (h : Meets good bad (call s.disk)) :
    Meets (fun a s' => s'.log = s.log ∧ good a s'.disk) (fun e s' => s'.log = s.log ∧ bad e s'.disk)
      (onDisk call s) := by
  unfold onDisk
  cases run : call s.disk with
  | ok a d =>
    rw [run] at h
    exact ⟨rfl, h⟩
  | error e d =>
    rw [run] at h
    exact ⟨rfl, h⟩

theorem meets_reporting {α σ : Type} {good : α → σ → Prop} {bad : σ → Prop} {s : σ}
    {call : EStateM DiskFault σ α} (h : Meets good (fun _ => bad) (call s)) :
    Meets good (fun _ => bad) (reporting call s) := by
  unfold reporting
  cases run : call s with
  | ok a s' =>
    rw [run] at h
    exact h
  | error fault s' =>
    rw [run] at h
    exact h

theorem reporting_of_ok {α σ : Type} {call : EStateM DiskFault σ α} {a : α} {s s' : σ}
    (h : call s = .ok a s') : reporting call s = .ok a s' := by
  unfold reporting
  rw [h]

/-- The log is as before but for its writer, which has taken in a piece. -/
structure Took (piece : Bytes) (fault : Option DiskFault) (s s' : LogStore) : Prop where
  log : s'.log = { s.log with writer := s'.log.writer }
  adds : s.log.writer.Adds s.disk piece fault s'.log.writer s'.disk

theorem Took.trans {piece piece' : Bytes} {fault : Option DiskFault} {s'' : LogStore}
    (h : Took piece none s s') (h' : Took piece' fault s' s'') :
    Took (piece ++ piece') fault s s'' where
  log := by rw [h'.log, h.log]
  adds := h.adds.trans h'.adds

theorem Took.synced {piece : Bytes} {s'' : LogStore} (h : Took piece none s s')
    (log : s''.log = s'.log) (same : Disk.Same s'.disk s''.disk) : Took piece none s s'' where
  log := by rw [log, h.log]
  adds := by
    rw [log]
    refine ⟨h.adds.file, h.adds.changes.trans (.of_same same), ?_, ?_, fun _ => rfl⟩
    · rw [same.content_eq]
      exact h.adds.grows
    · intro _
      rw [same.content_eq]
      exact h.adds.row rfl

theorem onWriter_of_ok {use : Appender → Disk → Option DiskFault × Appender × Disk}
    {a' : Appender} {d' : Disk} (run : use s.log.writer s.disk = (none, a', d')) :
    onWriter use s = .ok () { s with disk := d', log.writer := a' } := by
  unfold onWriter
  rw [run]

theorem onWriter_of_fault {use : Appender → Disk → Option DiskFault × Appender × Disk}
    {fault : DiskFault} {a' : Appender} {d' : Disk}
    (run : use s.log.writer s.disk = (some fault, a', d')) :
    onWriter use s = .error fault { s with disk := d', log.writer := a' } := by
  unfold onWriter
  rw [run]

theorem meets_writeImage (s : LogStore) (piece : Bytes) :
    Meets (fun _ => Took piece none s) (fun _ s' => ∃ fault, Took piece (some fault) s s')
      (onWriter (·.write piece) s) := by
  obtain ⟨fault, a', d', run, adds⟩ := s.log.writer.write_spec piece s.disk
  cases fault with
  | none =>
    rw [onWriter_of_ok run]
    exact ⟨rfl, adds⟩
  | some fault =>
    rw [onWriter_of_fault run]
    exact ⟨fault, rfl, adds⟩

theorem meets_flushWriter (s : LogStore) :
    Meets (fun _ s' => Took ByteArray.empty none s s' ∧ s'.log.writer.pending = ByteArray.empty)
      (fun _ s' => ∃ fault, Took ByteArray.empty (some fault) s s') (onWriter (·.flush) s) := by
  obtain ⟨fault, a', d', run, adds, empty⟩ := s.log.writer.flush_spec s.disk
  cases fault with
  | none =>
    rw [onWriter_of_ok run]
    exact ⟨⟨rfl, adds⟩, empty rfl⟩
  | some fault =>
    rw [onWriter_of_fault run]
    exact ⟨fault, rfl, adds⟩

/-- With nothing in the buffer, a flush of it does nothing. -/
theorem flushWriter_of_idle (h : s.log.writer.pending = ByteArray.empty) :
    onWriter (·.flush) s = .ok () s :=
  onWriter_of_ok (Appender.flush_of_empty h s.disk)

/-! ### Appending -/

/-- Where appending a record fails, the file can be cut back. -/
def RollsBack (s : LogStore) (r : Record) : Prop :=
  ∀ fault s₁, appendImage r.image s = .error fault s₁ → ∃ s₂, discardPartial s₁ = .ok () s₂

/-- What an append that failed leaves behind: the file may have grown. -/
structure Torn (s s' : LogStore) : Prop where
  log : s'.log = { s.log with writer := s'.log.writer }
  changes : Disk.Changes (fun _ => False) (· = s.log.writer.file) s.disk s'.disk
  grows : ∃ more, s'.disk.content s.log.writer.file = s.disk.content s.log.writer.file ++ more
  loud : ¬ s.disk.Quiet

theorem Took.torn {piece : Bytes} {fault : DiskFault} (h : Took piece (some fault) s s') :
    Torn s s' :=
  ⟨h.log, h.adds.changes, h.adds.grows, fun hq => nomatch h.adds.quiet hq⟩

/-- An append that succeeds brings the record to the end of the file. -/
theorem meets_appendImage (s : LogStore) (image : Bytes) :
    Meets (fun _ s' => Took image none s s' ∧ s'.log.writer.pending = ByteArray.empty)
      (fun _ => Torn s) (appendImage image s) := by
  unfold appendImage
  refine (meets_writeImage s image).andThen ?_ ?_
  · intro _ s₁ took
    refine (meets_flushWriter s₁).andThen ?_ ?_
    · intro _ s₂ flushed
      obtain ⟨flushed, empty⟩ := flushed
      have both : Took image none s s₂ := by
        have both := took.trans flushed
        rwa [ByteArray.append_empty] at both
      rw [EStateM.get_bind]
      -- The record is in the file. A sync that is due can still make the append fail.
      by_cases due : s₂.log.mode.mustSync (s₂.log.unsynced + 1) = true
      · simp only [due, if_true]
        refine (meets_onDisk s₂ (Disk.meets_proceed s₂.disk)).andThen ?_ ?_
        · intro _ s₃ synced
          obtain ⟨log, same⟩ := synced
          exact ⟨both.synced log same, by rw [log, empty]⟩
        · intro _ s₃ failed
          obtain ⟨log, same, loud⟩ := failed
          have all := both.synced log same
          refine ⟨all.log, all.adds.changes, all.adds.grows, ?_⟩
          intro hq
          exact loud (both.adds.changes.calm hq.1)
      · simp only [due]
        exact ⟨both, empty⟩
    · intro _ s₂ failed
      obtain ⟨fault, cut⟩ := failed
      exact (took.trans cut).torn
  · intro _ s₁ failed
    obtain ⟨fault, cut⟩ := failed
    exact cut.torn

/-! ### Cutting the file back -/

theorem meets_discardPartial {number : FileNumber}
    (named : s.disk.lookup s.log.path = some (.file number))
    (reached : s.log.length ≤ (s.disk.content number).size) :
    Meets (fun _ s' => s'.log = { s.log with writer := { file := number } } ∧
        Disk.Changes (fun _ => False) (· = number) s.disk s'.disk ∧
        s'.disk.content number = (s.disk.content number).extract 0 s.log.length)
      (fun _ _ => ¬ s.disk.Calm) (discardPartial s) := by
  unfold discardPartial
  rw [EStateM.get_bind]
  -- The file is opened anew, so what still waits in the buffer is dropped, and then cut back.
  refine (meets_onDisk s (Disk.meets_openExisting named)).andThen ?_ ?_
  · intro n s₁ opened
    obtain ⟨log₁, rfl, same⟩ := opened
    rw [EStateM.modify_bind]
    have reached₁ : s.log.length ≤ (s₁.disk.content n).size := by rwa [same.content_eq]
    refine (meets_onDisk { s₁ with log.writer := { file := n } } (Disk.meets_setLength
      reached₁)).mono ?_ ?_
    · intro _ s₂ cut
      obtain ⟨log₂, changes, content⟩ := cut
      refine ⟨?_, (Disk.Changes.of_same same).trans changes, ?_⟩
      · rw [log₂, log₁]
      · rw [content, same.content_eq]
    · intro _ _ failed calm
      exact failed.2.2 (same.calm calm)
  · intro _ _ failed
    exact failed.2.2

/-! ### One write -/

/-- Behind a failed append, cutting the file back leaves the bytes that it held before. -/
theorem Intact.meets_discardPartial (h : s.Intact records) {s₁ : LogStore} (torn : Torn s s₁) :
    Meets (fun _ s₂ => s₂.log = { s₁.log with writer := { file := s.log.writer.file } } ∧
        Disk.Changes (fun _ => False) (· = s.log.writer.file) s₁.disk s₂.disk ∧
        s₂.disk.content s.log.writer.file = Record.images records)
      (fun _ _ => ¬ s₁.disk.Calm) (discardPartial s₁) := by
  -- The counted length is that of the bytes before the append, so just what is new is cut off.
  obtain ⟨more, grown⟩ := torn.grows
  have path : s₁.log.path = s.log.path := by rw [torn.log]; rfl
  have length : s₁.log.length = s.log.length := by rw [torn.log]
  have named : s₁.disk.lookup s₁.log.path = some (.file s.log.writer.file) := by
    rw [path, torn.changes.lookup _ id, h.named]
  have reached : s₁.log.length ≤ (s₁.disk.content s.log.writer.file).size := by
    rw [length, grown, ByteArray.size_append, h.size]
    omega
  refine (LogStore.meets_discardPartial named reached).mono ?_ ?_
  · intro _ s₂ cut
    obtain ⟨log, changes, content⟩ := cut
    refine ⟨log, changes, ?_⟩
    rw [content, grown, length, ← h.size, ByteArray.extract_append_eq_left rfl, h.content]
  · intro _ _
    exact id

/-- Where no mishap is due, whatever makes an append fail, it is rolled back. -/
theorem Intact.rollsBack (h : s.Intact records) (calm : s.disk.Calm) (r : Record) :
    s.RollsBack r := by
  intro fault s₁ failed
  have torn := (meets_appendImage s r.image).of_error failed
  have discarded := h.meets_discardPartial torn
  cases run : discardPartial s₁ with
  | ok _ s₂ => exact ⟨s₂, rfl⟩
  | error e s₂ => exact absurd (torn.changes.calm calm) (discarded.of_error run)

/-- A failed append that was rolled back has left no trace. -/
theorem Intact.rolled_back (h : s.Intact records) {s₁ s₂ : LogStore} (torn : Torn s s₁)
    (rolled : discardPartial s₁ = .ok () s₂) :
    LeftAlone records s s₂ := by
  obtain ⟨log, changes, cut⟩ := (h.meets_discardPartial torn).of_ok rolled
  have all := torn.changes.trans changes
  have file : s₂.log.writer.file = s.log.writer.file := by rw [log]
  have idle : s₂.log.writer.pending = ByteArray.empty := by rw [log]
  exact h.leftAlone (by rw [log, torn.log]) file idle all cut

/-- Behind an append that succeeded the log with the record counted and indexed is in step. -/
theorem Intact.acknowledge (h : s.Intact records) {r : Record} (fits : r.Fits) {s₁ : LogStore}
    (took : Took r.image none s s₁) (empty : s₁.log.writer.pending = ByteArray.empty)
    (synced : Bool) :
    (s₁.acknowledge r synced).Intact (records ++ [r]) ∧
      (s₁.acknowledge r synced).log.index = s.log.index.apply r ∧
      Stays s (s₁.acknowledge r synced) := by
  have location : s₁.log.location = s.log.location := by rw [took.log]
  have directory : s₁.log.directory = s.log.directory := by rw [took.log]
  have index : s₁.log.index = s.log.index := by rw [took.log]
  have length : s₁.log.length = s.log.length := by rw [took.log]
  have content : s₁.disk.content s.log.writer.file = Record.images (records ++ [r]) := by
    rw [took.adds.content_of_flushed h.idle empty, h.content, Record.images_append,
      Record.images_singleton]
  have all_fit : ∀ r' ∈ records ++ [r], r'.Fits := by
    intro r' hr
    rcases List.mem_append.1 hr with old | new
    · exact h.fits r' old
    · rwa [List.mem_singleton.1 new]
  refine ⟨?_, ?_, h.stays location directory took.adds.changes⟩
  · refine h.rewrite location directory took.adds.file took.adds.changes content all_fit empty ?_ ?_
    · show s₁.log.length + r.encodedLength = _
      rw [length, h.length]
      simp
    · show (s₁.log.index.apply r).Equiv _
      rw [index, LogIndex.ofRecords_concat]
      exact LogIndex.apply_equiv h.index r
  · show s₁.log.index.apply r = _
    rw [index]

/-- A write that was acknowledged has appended its record, which is within the limits. -/
theorem write_eq_ok {key value : Bytes} (run : write key value s = .ok () s') :
    Record.Fits ⟨key, value⟩ ∧ ∃ synced s₁, s' = s₁.acknowledge ⟨key, value⟩ synced ∧
      Took (Record.image ⟨key, value⟩) none s s₁ ∧ s₁.log.writer.pending = ByteArray.empty := by
  unfold write at run
  cases encoded : Record.encode ⟨key, value⟩ with
  | error fault =>
    rw [encoded] at run
    cases run
  | ok image =>
    obtain ⟨fits, rfl⟩ := Record.encode_eq_ok encoded
    simp only [encoded, reporting, appendRecord] at run
    cases appended : appendImage (Record.image ⟨key, value⟩) s with
    | ok synced s₁ =>
      obtain ⟨took, empty⟩ := (meets_appendImage s _).of_ok appended
      rw [appended] at run
      cases run
      exact ⟨fits, synced, s₁, rfl, took, empty⟩
    | error fault s₁ =>
      -- Behind a failed append the write fails, whether it is rolled back or not.
      rw [appended] at run
      cases rolled : discardPartial s₁ <;> simp [rolled] at run

/-- On a quiet disk every record within the limits is acknowledged. -/
theorem write_succeeds (quiet : s.disk.Quiet) {key value : Bytes}
    (fits : Record.Fits ⟨key, value⟩) : ∃ s', write key value s = .ok () s' := by
  cases appended : appendImage (Record.image ⟨key, value⟩) s with
  | error fault s₁ => exact absurd quiet ((meets_appendImage s _).of_error appended).loud
  | ok synced s₁ =>
    refine ⟨s₁.acknowledge ⟨key, value⟩ synced, ?_⟩
    unfold write
    simp only [Record.encode_of_fits fits, reporting, appendRecord, appended]

/-- A write that was acknowledged has added its record to the log, whatever mishaps were due. -/
theorem Intact.written (h : s.Intact records) {key value : Bytes}
    (run : write key value s = .ok () s') :
    s'.Intact (records ++ [⟨key, value⟩]) ∧ s'.log.index = s.log.index.apply ⟨key, value⟩ ∧
      Stays s s' := by
  obtain ⟨fits, synced, s₁, rfl, took, empty⟩ := write_eq_ok run
  exact h.acknowledge fits took empty synced

/-- A write adds its record to the log. If it fails, the log is as it was. -/
theorem meets_write (h : s.Intact records) (key value : Bytes) (rolls : s.RollsBack ⟨key, value⟩) :
    Meets (fun _ s' => s'.Intact (records ++ [⟨key, value⟩]) ∧
        s'.log.index = s.log.index.apply ⟨key, value⟩ ∧ Stays s s')
      (fun _ s' => LeftAlone records s s' ∧ ¬ (s.disk.Quiet ∧ Record.Fits ⟨key, value⟩))
      (write key value s) := by
  unfold write
  cases encoded : Record.encode ⟨key, value⟩ with
  | error fault =>
    -- A record beyond the limits is refused before anything is touched.
    refine ⟨h.leftAlone_self, ?_⟩
    intro hq
    rw [Record.encode_of_fits hq.2] at encoded
    cases encoded
  | ok image =>
    obtain ⟨fits, rfl⟩ := Record.encode_eq_ok encoded
    apply meets_reporting
    unfold appendRecord
    have appended := meets_appendImage s (Record.image ⟨key, value⟩)
    cases run : appendImage (Record.image ⟨key, value⟩) s with
    | ok synced s₁ =>
      obtain ⟨took, empty⟩ := appended.of_ok run
      exact h.acknowledge fits took empty synced
    | error fault s₁ =>
      -- However much of the record has reached the file, it is cut off again.
      have torn := appended.of_error run
      obtain ⟨s₂, rolled⟩ := rolls fault s₁ run
      simp only [rolled]
      exact ⟨h.rolled_back torn rolled, fun hq => torn.loud hq.1⟩

/-! ### Writes that are cut off -/

/-- A record that waits in the buffer is cut off by the mishap that is due at its flush. -/
theorem appendImage_of_cut (idle : s.log.writer.pending = ByteArray.empty) {cut : Nat}
    {rest : List (Option Nat)} (due : s.disk.mishaps = some cut :: rest) {r : Record}
    (short : r.encodedLength < Appender.capacity) :
    ∃ fault s₁, appendImage r.image s = .error fault s₁ ∧ s₁.disk.mishaps = rest := by
  have nonempty : r.image.size ≠ 0 := by
    rw [Record.size_image]
    exact Nat.ne_of_gt r.encodedLength_pos
  have room : r.encodedLength ≤ Appender.capacity := Nat.le_of_lt short
  -- The record fits into the empty buffer, so the first call on the disk is the flush.
  have buffered : s.log.writer.write r.image s.disk =
      (none, { s.log.writer with pending := r.image }, s.disk) := by
    simp [Appender.write, Appender.accept, idle, room, short]
  obtain ⟨a, d, cutOff, left⟩ : ∃ a d, Appender.flush { s.log.writer with pending := r.image }
      s.disk = (some .mishap, a, d) ∧ d.mishaps = rest := by
    simp only [Appender.flush, nonempty, if_false, Disk.append, due]
    exact ⟨_, _, rfl, rfl⟩
  unfold appendImage
  rw [EStateM.bind_of_ok (onWriter_of_ok buffered)]
  exact ⟨.mishap, _, EStateM.bind_of_error (onWriter_of_fault cutOff), left⟩

/-- Where the flush of a record is the last call that a mishap is due at, the write fails and is
rolled back. -/
theorem Intact.write_of_cut (h : s.Intact records) {cut : Nat} (due : s.disk.mishaps = [some cut])
    {key value : Bytes} (fits : Record.Fits ⟨key, value⟩)
    (short : Record.encodedLength ⟨key, value⟩ < Appender.capacity) :
    s.RollsBack ⟨key, value⟩ ∧ ∃ e s', write key value s = .error e s' := by
  obtain ⟨fault, s₁, failed, calm⟩ := appendImage_of_cut h.idle due short
  have torn := (meets_appendImage s (Record.image ⟨key, value⟩)).of_error failed
  have discarded := h.meets_discardPartial torn
  cases rolled : discardPartial s₁ with
  | error e s₂ => exact absurd calm (discarded.of_error rolled)
  | ok _ s₂ =>
    refine ⟨?_, .io fault.message, s₂, ?_⟩
    · intro fault' s₁' failed'
      rw [failed] at failed'
      cases failed'
      exact ⟨s₂, rolled⟩
    · unfold write
      simp only [Record.encode_of_fits fits, reporting, appendRecord, failed, rolled]

/-! ### Flushing -/

/-- A flush leaves the log as it was, whether it succeeds or not. -/
theorem meets_flush (h : s.Intact records) :
    Meets (fun _ s' => LeftAlone records s s')
      (fun _ s' => LeftAlone records s s' ∧ ¬ s.disk.Calm) (flush s) := by
  -- Nothing waits in the buffer, so all that a flush can change is the count of unsynced writes.
  have settled : ∀ s₁ : LogStore, s₁.log = { s.log with unsynced := s₁.log.unsynced } →
      Disk.Same s.disk s₁.disk → LeftAlone records s s₁ := by
    intro s₁ log same
    have file : s₁.log.writer.file = s.log.writer.file := by rw [log]
    have idle : s₁.log.writer.pending = ByteArray.empty := by rw [log, h.idle]
    refine h.leftAlone (by rw [log]) file idle (.of_same same) ?_
    rw [same.content_eq, h.content]
  unfold flush
  apply meets_reporting
  rw [EStateM.bind_of_ok (flushWriter_of_idle h.idle)]
  refine (meets_onDisk s (Disk.meets_proceed s.disk)).andThen ?_ ?_
  · intro _ s₁ synced
    obtain ⟨log, same⟩ := synced
    exact settled { s₁ with log.unsynced := 0 } (by rw [log]) same
  · intro _ s₁ failed
    obtain ⟨log, same, loud⟩ := failed
    exact ⟨settled s₁ (by rw [log]) same, loud⟩

end LogStore

end FlatStore
