import FlatStore.Database
import FlatStore.Proofs.Coherence
import FlatStore.Proofs.Log.Compaction

/-! # The stores behind a database

    Both kinds of store are seen as the contents that they hold
    (`Backend.view`), so a script gives the same on either.

    * **Sound stores** come from the store that the database was opened with
      (`Backend.Later`): memory as it is, or a log in step on a quiet disk, in
      the same place, on whose disk nothing beside its files has changed.
    * **The number of keys** depends on the contents only
      (`Backend.size_eq_of_contents`).
    * **Compaction**, whether it succeeds or not, keeps the contents
      (`Backend.compact_later`). Only the disk makes it fail, and only where the
      side file cannot be built (`Backend.compact_fails`), which does not change
      as long as the store is used (`Backend.Later.sideFree`).
    * **Limits** are those of a log, which refuses longer records and stays as it
      is (`LogStore.write_oversized`). Memory takes records of any length
      (`Backend.wideView`).
-/

namespace FlatStore

/-! ### Logs -/

namespace LogStore

variable {origin s : LogStore}

/-- The log is in step on a quiet disk. It is in the place of the other log, and on the disk nothing
beside its files has changed since. -/
structure Later (origin s : LogStore) : Prop where
  quiet : s.disk.Quiet
  stays : Stays origin s
  intact : ∃ records, s.Intact records

theorem Later.then (h : origin.Later s) {s' : LogStore} {records : List Record} (stays : Stays s s')
    (intact : s'.Intact records) : origin.Later s' :=
  ⟨stays.beside.quiet h.quiet, h.stays.trans stays, records, intact⟩

/-- A log in step on a quiet disk takes every record within the limits. -/
theorem Later.write (h : origin.Later s) {key value : Bytes} (fits : Record.Fits ⟨key, value⟩) :
    ∃ s', LogStore.write key value s = .ok () s' ∧ origin.Later s' ∧
      s'.log.index = s.log.index.apply ⟨key, value⟩ := by
  obtain ⟨records, intact⟩ := h.intact
  have written := meets_write intact key value (intact.rollsBack h.quiet.1 _)
  cases run : LogStore.write key value s with
  | ok _ s' =>
    obtain ⟨intact', index, stays⟩ := written.of_ok run
    exact ⟨s', rfl, h.then stays intact', index⟩
  | error e s' => exact absurd ⟨h.quiet, fits⟩ (written.of_error run).2

/-- A record above the limits is refused, and the log stays as it is. -/
theorem write_oversized {key value : Bytes}
    (long : ¬ Record.Fits ⟨key, value⟩) :
    ∃ detail, LogStore.write key value s = .error (.serialization detail) s := by
  cases encoded : (⟨key, value⟩ : Record).encode with
  | ok image => exact absurd (Record.encode_eq_ok encoded).1 long
  | error fault =>
    refine ⟨fault.message, ?_⟩
    unfold LogStore.write
    simp only [encoded]
    rfl

theorem Later.flush (h : origin.Later s) :
    ∃ s', LogStore.flush s = .ok () s' ∧ origin.Later s' ∧ s'.log.index = s.log.index := by
  obtain ⟨records, intact⟩ := h.intact
  have flushed := meets_flush intact
  cases run : LogStore.flush s with
  | ok _ s' =>
    obtain ⟨intact', unchanged, stays⟩ := flushed.of_ok run
    exact ⟨s', rfl, h.then stays intact', unchanged.index⟩
  | error e s' => exact absurd h.quiet.1 (flushed.of_error run).2

/-- Compaction may fail for what is in the place of the side file; the log goes on either way. -/
theorem Later.compact (h : origin.Later s) :
    origin.Later (leftBy (LogStore.compact s)) ∧
      (leftBy (LogStore.compact s)).log.index = s.log.index := by
  obtain ⟨records, intact⟩ := h.intact
  have compacted := meets_compact intact (intact.completes h.quiet.1)
  cases run : LogStore.compact s with
  | ok saved s' =>
    obtain ⟨intact', index, stays⟩ := compacted.of_ok run
    exact ⟨h.then stays intact', index⟩
  | error e s' =>
    obtain ⟨intact', unchanged, stays⟩ := compacted.of_error run
    exact ⟨h.then stays intact', unchanged.index⟩

end LogStore

/-! ### Either kind of store -/

namespace Backend

variable {ε α : Type} {origin b b' : Backend}

theorem use_log_of_ok {inMemory : EStateM ε Memory α} {inLog : EStateM ε LogStore α} {a : α}
    {s s' : LogStore} (run : inLog s = .ok a s') :
    use inMemory inLog (.log s) = .ok a (.log s') := by
  simp only [use, run]

theorem use_log_of_error {inMemory : EStateM ε Memory α} {inLog : EStateM ε LogStore α} {e : ε}
    {s s' : LogStore} (run : inLog s = .error e s') :
    use inMemory inLog (.log s) = .error e (.log s') := by
  simp only [use, run]

theorem leftBy_use_log (inMemory : EStateM ε Memory α) (inLog : EStateM ε LogStore α)
    (s : LogStore) : leftBy (use inMemory inLog (.log s)) = .log (leftBy (inLog s)) := by
  cases run : inLog s <;> simp only [use, run, leftBy]

/-- What the store holds. -/
def contents : Backend → Contents
  | .memory store _ => fun key => store.get? key
  | .log store => fun key => store.log.index[key]?

/-- The store is the other one some calls later. -/
inductive Later : Backend → Backend → Prop where
  | memory {store store' : Memory} {disk : Disk} : Later (.memory store disk) (.memory store' disk)
  | log {store store' : LogStore} (h : store.Later store') : Later (.log store) (.log store')

theorem Later.isNone_location? (h : origin.Later b) :
    b.location?.isNone = origin.location?.isNone := by
  cases h <;> rfl

theorem size_eq_of_contents (h : b.contents = b'.contents) : b.size = b'.size := by
  -- Both kinds of store keep a map, and maps with the same entries are of the same size.
  have maps : ∀ m m' : Std.TreeMap Bytes Bytes Bytes.compare,
      (∀ key : Bytes, m[key]? = m'[key]?) → m.size = m'.size := by
    intro m m' same
    exact (Std.TreeMap.Equiv.of_forall_constGet?_eq same).size_eq
  cases b <;> cases b' <;> exact maps _ _ (congrFun h)

theorem contents_of_size_eq_zero (h : b.size = 0) : b.contents = fun _ => none := by
  have maps : ∀ m : Std.TreeMap Bytes Bytes Bytes.compare, m.size = 0 →
      ∀ key : Bytes, m[key]? = none := by
    intro m nothing key
    have empty : m.isEmpty = true := by
      rw [Std.TreeMap.isEmpty_eq_size_eq_zero, nothing]
      rfl
    exact Std.TreeMap.getElem?_of_isEmpty empty
  cases b <;> exact funext (maps _ h)

theorem read_later (key : Bytes) (h : origin.Later b) :
    ∃ b', ByteStore.read key b = .ok (b.contents key) b' ∧ origin.Later b' ∧
      b'.contents = b.contents := by
  cases h with
  | memory => exact ⟨_, rfl, .memory, rfl⟩
  | log later => exact ⟨_, rfl, .log later, rfl⟩

/-- A log takes records within the limits, and memory takes all. -/
def Takes : Backend → Bytes → Bytes → Prop
  | .memory .., _, _ => True
  | .log _, key, value => Record.Fits ⟨key, value⟩

theorem takes_of_fits {key value : Bytes} (fits : Record.Fits ⟨key, value⟩) :
    b.Takes key value := by
  cases b with
  | memory => trivial
  | log => exact fits

theorem write_taken {key value : Bytes} (h : origin.Later b) (takes : origin.Takes key value) :
    ∃ b', ByteStore.write key value b = .ok () b' ∧ origin.Later b' ∧
      b'.contents = fun k => if k = key then some value else b.contents k := by
  cases h with
  | memory =>
    rename_i store store' disk
    obtain ⟨after, run, -, contents⟩ := Memory.view.write store' key value trivial trivial
    exact ⟨.memory after disk, by cases run; rfl, .memory, contents⟩
  | log later =>
    rename_i store store'
    obtain ⟨after, run, later', index⟩ := later.write takes
    refine ⟨.log after, use_log_of_ok run, .log later', ?_⟩
    funext k
    show after.log.index[k]? = _
    rw [index, LogIndex.getElem?_apply]
    rfl

theorem write_later {key value : Bytes} (h : origin.Later b) (fits : Record.Fits ⟨key, value⟩) :
    ∃ b', ByteStore.write key value b = .ok () b' ∧ origin.Later b' ∧
      b'.contents = fun k => if k = key then some value else b.contents k :=
  write_taken h (takes_of_fits fits)

theorem flush_later (h : origin.Later b) :
    ∃ b', ByteStore.flush b = .ok () b' ∧ origin.Later b' ∧ b'.contents = b.contents := by
  cases h with
  | memory => exact ⟨_, rfl, .memory, rfl⟩
  | log later =>
    rename_i store store'
    obtain ⟨after, run, later', index⟩ := later.flush
    refine ⟨.log after, use_log_of_ok run, .log later', ?_⟩
    funext k
    show after.log.index[k]? = store'.log.index[k]?
    rw [index]

theorem compact_later (h : origin.Later b) :
    origin.Later (leftBy (compact b)) ∧ (leftBy (compact b)).contents = b.contents := by
  cases h with
  | memory => exact ⟨.memory, rfl⟩
  | log later =>
    rename_i store store'
    have kept := later.compact
    rw [compact, leftBy_use_log]
    refine ⟨.log kept.1, ?_⟩
    funext k
    show (leftBy (LogStore.compact store')).log.index[k]? = store'.log.index[k]?
    rw [kept.2]

/-- The side file of a compaction can be built; memory needs none. -/
def SideFree : Backend → Prop
  | .memory .. => True
  | .log store => store.SideFree

theorem Later.sideFree (h : origin.Later b) (free : origin.SideFree) : b.SideFree := by
  cases h with
  | memory => trivial
  | log later => exact later.stays.sideFree free

theorem compact_fails (h : origin.Later b) :
    Meets (fun _ _ => True) (fun e _ => e.isIo = true ∧ ¬ b.SideFree) (compact b) := by
  cases h with
  | memory => trivial
  | log later =>
    rename_i store store'
    obtain ⟨records, intact⟩ := later.intact
    cases run : LogStore.compact store' with
    | ok saved s =>
      rw [compact, use_log_of_ok run]
      trivial
    | error e s =>
      rw [compact, use_log_of_error run]
      refine ⟨intact.compact_fails.of_error run, fun free => ?_⟩
      obtain ⟨saved, s', succeeds⟩ := intact.compact_succeeds free
      rw [run] at succeeds
      cases succeeds

/-- Both kinds of store take records within the limits. -/
def view (origin : Backend) : StoreView Backend where
  sound := origin.Later
  contents := contents
  takes key value := Record.Fits ⟨key, value⟩
  read _ key h := read_later key h
  write _ _ _ h fits := write_later h fits
  flush _ h := flush_later h

/-- Each kind of store with all that it takes. -/
def wideView (origin : Backend) : StoreView Backend where
  sound := origin.Later
  contents := contents
  takes := origin.Takes
  read _ key h := read_later key h
  write _ _ _ h takes := write_taken h takes
  flush _ h := flush_later h

end Backend

end FlatStore
