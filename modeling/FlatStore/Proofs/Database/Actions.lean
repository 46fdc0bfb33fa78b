import Mathlib
import FlatStore.Proofs.Catalog
import FlatStore.Proofs.Database.Run

/-! # Actions on a database

    A run executes actions from command lines on a database that was empty, and
    keeps a history of what each of them came to.

    * **Histories** say which orders are recorded, those of the first insert that
      succeeded (`History.recorded`), and what the trees hold
      (`History.catalog`).
    * **Step**: an action comes to what is due, and the database behind it is as
      its history says (`Serving.step`).
    * **Run**: so along every run requests are refused only for their orders, and
      the others give what the catalog says (`actions_respect_recorded_orders`).
    * **Limits**: a log refuses values that are too long, so without them all
      this would not hold (`oversized_value_refused`).
-/

namespace FlatStore

/-! ### Histories -/

/-- Actions in the order in which they were executed, and what they came to. -/
abbrev History := List (Action × Except Failure Output)

namespace History

/-- The orders that an action records for a namespace without recorded orders. -/
def recording (ns : FileId) : Action × Except Failure Output → Option (List KeyOrder)
  | (.request (.treeInsert ns' requested key _), .ok _) =>
    if ns' = ns then some (requested.getD (List.replicate key.length .lex)) else none
  | _ => none

/-- The orders recorded for a namespace are those of the first insert there that succeeded. -/
def recorded (history : History) (ns : FileId) : Option (List KeyOrder) :=
  history.findSome? (recording ns)

/-- Only requests that succeed change the catalog. -/
def change (k : Catalog) : Action × Except Failure Output → Catalog
  | (.request r, .ok _) => k.after r
  | _ => k

/-- The catalog that a history leads to. -/
def catalog (history : History) : Catalog := history.foldl change fun _ => none

end History

/-! ### Runs -/

namespace Database

/-- What the byte store holds. -/
def contents (db : Database) : Contents := db.fields.store.contents

/-- Execute an action; gives what it came to. -/
def attempt (a : Action) (db : Database) : Except Failure Output × Database :=
  match execute a db with
  | .ok out db => (.ok out, db)
  | .error e db => (.error e, db)

/-- The writes of the action are within the limits of the log, if there is one. -/
def Takes (db : Database) : Action → Prop
  | .request r => db.isEphemeral = true ∨
    ∀ w ∈ r.script.writes db.contents, Record.Fits ⟨w.1.toUTF8, w.2.toUTF8⟩
  | .compact => True

/-- The side file of a compaction can be built, if one is needed. -/
def SideFree (db : Database) : Prop := db.fields.store.SideFree

/-- Databases that actions from command lines lead to, with the history on the way. -/
inductive Executed (start : Database) : History → Database → Prop where
  | start : Executed start [] start
  | step {history : History} {db : Database} {a : Action} (h : Executed start history db)
      (spelled : a.Spelled) (takes : db.Takes a) :
      Executed start (history ++ [(a, (db.attempt a).1)]) (db.attempt a).2

end Database

/-! ### What is due -/

/-- What an action may come to, by the history of the database before it. -/
inductive History.Warrants (history : History) (db : Database) :
    Action → Except Failure Output → Database → Prop where
  /-- Orders that do not suit the recorded ones are refused, and nothing changes. -/
  | refused {r : Request} {m : OrderMismatch} {db' : Database} (refuses : history.catalog.Refuses r)
      (same : db'.contents = db.contents) :
      Warrants history db (.request r) (.error (.error (.orderMismatch m))) db'
  /-- All other requests succeed, and those on trees give what the catalog says. -/
  | served {r : Request} {out : Output} {db' : Database} (accepts : ¬ history.catalog.Refuses r)
      (said : ∀ expected ∈ history.catalog.answer? r, out = expected) :
      Warrants history db (.request r) (.ok out) db'
  | compacted {saved : Int} {db' : Database} (same : db'.contents = db.contents) :
      Warrants history db .compact (.ok (.integer saved)) db'
  /-- Only where the side file cannot be built the file system refuses a compaction. -/
  | uncompacted {detail : String} {db' : Database} (blocked : ¬ db.SideFree)
      (same : db'.contents = db.contents) :
      Warrants history db .compact (.error (.error (.io detail))) db'

/-- A database keeps its trees as its history says: exactly the namespaces with an insert that
succeeded have recorded orders, and their entries have a component for each of these. -/
structure Database.Keeps (db : Database) (history : History) : Prop where
  recorded : ∀ ns, ∃ db', db.perform (Tree.recordedOrders ns) = .ok (history.recorded ns) db'
  entries : ∀ ns orders (some_orders : orders ≠ []), history.recorded ns = some orders →
    ∃ db', db.perform (Tree.entries ⟨ns, orders, some_orders⟩) =
      .ok (history.catalog.entries ns) db'
  arity : ∀ ns orders, history.recorded ns = some orders →
    ∀ e ∈ history.catalog.entries ns, e.1.length = orders.length

/-! ### The invariant of a run -/

variable {history : History} {origin : Backend} {db : Database} {c : Contents} {a : Action}
  {r : Request}

/-- The database is as its history says. -/
structure Database.Serving (origin : Backend) (history : History) (db : Database) : Prop where
  shows : db.Shows origin db.contents
  holds : history.catalog.HoldsIn history.length db.contents
  recorded : ∀ ns, (history.catalog ns).map Shelf.orders = history.recorded ns

namespace History

theorem catalog_append (history : History) (entry : Action × Except Failure Output) :
    catalog (history ++ [entry]) = change history.catalog entry := by
  simp [catalog]

theorem recorded_append (history : History) (entry : Action × Except Failure Output)
    (ns : FileId) :
    recorded (history ++ [entry]) ns = (history.recorded ns).or (recording ns entry) := by
  simp [recorded, List.findSome?_append]

namespace Warrants

variable {outcome : Except Failure Output} {db' : Database}

theorem of_refused (h : history.Warrants db (.request r) outcome db')
    (refuses : history.catalog.Refuses r) :
    (∃ m, outcome = .error (.error (.orderMismatch m))) ∧ db'.contents = db.contents := by
  cases h with
  | refused _ same => exact ⟨⟨_, rfl⟩, same⟩
  | served accepts => exact absurd refuses accepts

theorem of_accepted (h : history.Warrants db (.request r) outcome db')
    (accepts : ¬ history.catalog.Refuses r) :
    ∃ out, outcome = .ok out ∧ ∀ expected ∈ history.catalog.answer? r, out = expected := by
  cases h with
  | refused refuses => exact absurd refuses accepts
  | served _ said => exact ⟨_, rfl, said⟩

end Warrants

end History

/-- An insert records orders where there were none, and nothing else changes recorded orders. -/
theorem Catalog.orders_after {k : Catalog} (sound : r.Sound) (ns : FileId) (out : Output) :
    (k.after r ns).map Shelf.orders =
      ((k ns).map Shelf.orders).or (History.recording ns (.request r, .ok out)) := by
  cases r with
  | treeInsert ns' requested key data =>
    by_cases here : ns' = ns
    · subst here
      rw [after, set_self, History.recording, if_pos rfl,
        ← Tree.ordersFor_of_pos requested (List.length_pos_iff.2 sound.2.1)]
      cases (k ns').map Shelf.orders <;> rfl
    · rw [after, set_of_ne fun same => here same.symm, History.recording, if_neg here,
        Option.or_none]
  | treeDelete ns' requested key =>
    show _ = ((k ns).map Shelf.orders).or none
    rw [Option.or_none, after]
    cases there : k ns' with
    | none => rfl
    | some s =>
      by_cases here : ns = ns'
      · show (k.set ns' _ ns).map Shelf.orders = _
        rw [here, there, set_self]
        rfl
      · exact congrArg (Option.map Shelf.orders) (set_of_ne here)
  | _ => exact (Option.or_none).symm

namespace Database

/-! ### Single actions -/

/-- Asking changes nothing, so it gives what the contents give. -/
theorem perform_query {α : Type} {s : Script α} {answer : α} {S : Structure}
    (h : db.Shows origin c) (asks : s.Asks S) (run : s.run c = .ok answer c) :
    ∃ db', db.perform s = .ok answer db' := by
  obtain ⟨db', -, performed⟩ := perform_shows h (asks.reads.takesAll (Backend.view origin) c)
  rw [run] at performed
  exact ⟨db', performed⟩

/-- A log that is in use takes what is within its limits, and memory takes all. -/
theorem takesAll_of_takes (h : db.Shows origin db.contents) (takes : db.Takes (.request r)) :
    (Backend.wideView origin).TakesAll (r.script.writes db.contents) := by
  have later : origin.Later db.fields.store := h.sound
  intro w hw
  rcases takes with ephemeral | fits
  · cases origin with
    | memory => trivial
    | log log =>
      -- A log has a directory.
      rw [isEphemeral, location, later.isNone_location?] at ephemeral
      cases ephemeral
  · exact Backend.takes_of_fits (fits w hw)

/-- A request does on a database what its script does on the contents. -/
theorem attempt_request (h : db.Shows origin db.contents) (takes : db.Takes (.request r)) :
    match r.script.run db.contents with
    | .ok out c' => (db.attempt (.request r)).1 = .ok out ∧
        (db.attempt (.request r)).2.Shows origin c'
    | .error e c' => (db.attempt (.request r)).1 = .error e ∧
        (db.attempt (.request r)).2.Shows origin c' := by
  have wide : db.fields.Shows (Backend.wideView origin) db.contents :=
    ⟨h.sound, h.contents, h.cached⟩
  obtain ⟨db', shows_after, performed⟩ := perform_simulates wide (takesAll_of_takes h takes)
  have shows_after : db'.Shows origin (leftBy (r.script.run db.contents)) :=
    ⟨shows_after.sound, shows_after.contents, shows_after.cached⟩
  cases run : r.script.run db.contents with
  | ok out c' =>
    rw [run] at shows_after performed
    simp only [attempt, execute, performed]
    exact ⟨trivial, shows_after⟩
  | error e c' =>
    rw [run] at shows_after performed
    simp only [attempt, execute, performed]
    exact ⟨trivial, shows_after⟩

/-- A compaction fails only where its side file cannot be built. -/
theorem attempt_compact (h : db.Shows origin c) :
    (db.attempt .compact).2.Shows origin c ∧
      ((∃ saved, (db.attempt .compact).1 = .ok (.integer saved)) ∨
        ¬ db.SideFree ∧ ∃ detail, (db.attempt .compact).1 = .error (.error (.io detail))) := by
  have shows_after := compact_shows h
  have fails := Backend.compact_fails h.sound
  cases run : Backend.compact db.fields.store with
  | ok saved store =>
    simp only [attempt, execute, compact, onBackend, run] at shows_after ⊢
    exact ⟨shows_after, Or.inl ⟨_, rfl⟩⟩
  | error e store =>
    obtain ⟨io, blocked⟩ := fails.of_error run
    simp only [attempt, execute, compact, onBackend, run] at shows_after ⊢
    refine ⟨shows_after, Or.inr ⟨blocked, ?_⟩⟩
    cases e with
    | io detail => exact ⟨detail, rfl⟩
    | _ => cases io

/-! ### Along a run -/

theorem serving_of_shows (shows_after : db.Shows origin c)
    (holds : history.catalog.HoldsIn history.length c)
    (recorded : ∀ ns, (history.catalog ns).map Shelf.orders = history.recorded ns) :
    db.Serving origin history := by
  obtain rfl := shows_after.contents
  exact ⟨shows_after, holds, recorded⟩

namespace Serving

/-- What is recorded, and what the trees hold, is read back. -/
theorem keeps (h : db.Serving origin history) (few : history.length < Word.half64) :
    db.Keeps history := by
  have shelved : ∀ ns orders, history.recorded ns = some orders →
      ∃ s, history.catalog ns = some s ∧ s.orders = orders ∧
        s.StoredIn db.contents ns history.length := by
    intro ns orders recorded
    rw [← h.recorded ns] at recorded
    obtain ⟨s, there, same⟩ := Option.map_eq_some_iff.1 recorded
    exact ⟨s, there, same, (h.holds (.space ns)).1 s there⟩
  refine ⟨?_, ?_, ?_⟩
  · intro ns
    refine perform_query h.shows (Tree.asks_recordedOrders ns) ?_
    cases recorded : history.recorded ns with
    | none =>
      rw [← h.recorded ns, Option.map_eq_none_iff] at recorded
      exact Tree.run_recordedOrders_absent (((h.holds (.space ns)).2 recorded).read_eq rfl)
    | some orders =>
      obtain ⟨s, -, rfl, stored⟩ := shelved ns orders recorded
      exact Tree.run_recordedOrders_there stored.some_orders stored.recorded
  · intro ns orders some_orders recorded
    obtain ⟨s, there, rfl, stored⟩ := shelved ns orders recorded
    obtain ⟨lost, b, free, high, tree, bound⟩ := stored.tree
    refine perform_query h.shows (Tree.asks_entries _) ?_
    rw [Catalog.entries_of_some there]
    have word : Word.half64 < Word.size64 := by decide
    refine tree.run_entries ?_
    rw [Tree.walkBound]
    omega
  · intro ns orders recorded
    obtain ⟨s, there, rfl, stored⟩ := shelved ns orders recorded
    obtain ⟨lost, b, free, high, tree, bound⟩ := stored.tree
    rw [Catalog.entries_of_some there]
    exact tree.kept.sorted.arity

/-- Behind an action that was refused or only compacted, the catalog is as before. -/
theorem idle (h : db.Serving origin history) {db' : Database} {outcome : Except Failure Output}
    (shows_after : db'.Shows origin db.contents)
    (same : History.change history.catalog (a, outcome) = history.catalog)
    (silent : ∀ ns, History.recording ns (a, outcome) = none) :
    db'.Serving origin (history ++ [(a, outcome)]) := by
  refine serving_of_shows shows_after ?_ ?_
  · rw [History.catalog_append, same, List.length_append]
    exact h.holds.idle
  · intro ns
    rw [History.catalog_append, same, History.recorded_append, silent, Option.or_none]
    exact h.recorded ns

/-- An action comes to what is due, and the database behind it is as its history says. -/
theorem step (h : db.Serving origin history) (few : history.length + 1 < Word.half64)
    (sound : a.Sound) (takes : db.Takes a) :
    history.Warrants db a (db.attempt a).1 (db.attempt a).2 ∧
      (db.attempt a).2.Serving origin (history ++ [(a, (db.attempt a).1)]) := by
  cases a with
  | compact =>
    obtain ⟨shows_after, saved | failed⟩ := attempt_compact h.shows
    · obtain ⟨saved, outcome⟩ := saved
      rw [outcome]
      exact ⟨.compacted shows_after.contents, h.idle shows_after rfl fun _ => rfl⟩
    · obtain ⟨blocked, detail, outcome⟩ := failed
      rw [outcome]
      exact ⟨.uncompacted blocked shows_after.contents, h.idle shows_after rfl fun _ => rfl⟩
  | request r =>
    have attempted := attempt_request h.shows takes
    by_cases refuses : history.catalog.Refuses r
    · obtain ⟨m, run⟩ := h.holds.refuses sound refuses
      rw [run] at attempted
      obtain ⟨outcome, shows_after⟩ := attempted
      rw [outcome]
      refine ⟨.refused refuses shows_after.contents, h.idle shows_after rfl fun ns => ?_⟩
      cases r <;> rfl
    · obtain ⟨out, c', run, said, holds⟩ := h.holds.serves few sound refuses
      rw [run] at attempted
      obtain ⟨outcome, shows_after⟩ := attempted
      rw [outcome]
      refine ⟨.served refuses said, serving_of_shows shows_after ?_ ?_⟩
      · rw [History.catalog_append, List.length_append]
        exact holds
      · intro ns
        rw [History.catalog_append, History.recorded_append, ← h.recorded ns]
        exact Catalog.orders_after sound ns out

end Serving

/-- Every database on the way of a run is as its history says. -/
theorem Executed.serving {start : Database} (run : Executed start history db)
    (few : history.length < Word.half64) (first : start.Serving origin []) :
    db.Serving origin history := by
  induction run with
  | start => exact first
  | step _ spelled takes ih =>
    rw [List.length_append] at few
    exact ((ih (by omega)).step few spelled.sound takes).2

/-- An opened database shows what its store holds. -/
theorem shows_of_opened {o : Opening} {disk : Disk} (sound : disk.Sound) (quiet : disk.Quiet)
    (opened : o.run disk = .ok db) : db.Shows db.fields.store db.contents := by
  obtain ⟨-, -, -, -, cached, -⟩ := Opening.run_eq_ok opened
  refine shows_of_uncached ?_ cached
  cases stored : db.fields.store with
  | memory => exact .memory
  | log s =>
    have shows_start := (Opening.run_shows sound quiet opened stored).2
    exact stored ▸ shows_start.sound

/-- A database that was opened without contents is as the empty history says. -/
theorem serving_start {o : Opening} {disk : Disk} (sound : disk.Sound) (quiet : disk.Quiet)
    (opened : o.run disk = .ok db) (nothing : db.keyCount = 0) :
    db.Serving db.fields.store [] := by
  have empty : db.contents = fun _ => none := Backend.contents_of_size_eq_zero nothing
  refine ⟨shows_of_opened sound quiet opened, ?_, fun _ => rfl⟩
  rw [empty]
  exact Catalog.holdsIn_empty

/-- Where the side file of a compaction can be built at the start, it always can. -/
theorem Executed.sideFree {start : Database} (run : Executed start history db)
    (first : start.Serving start.fields.store []) (few : history.length < Word.half64)
    (free : start.SideFree) : db.SideFree := by
  have later : start.fields.store.Later db.fields.store := (run.serving few first).shows.sound
  exact later.sideFree free

/-- Actions leave a database in memory, or in its directory. -/
theorem Executed.isEphemeral_eq {start : Database} (run : Executed start history db)
    (first : start.Serving start.fields.store []) (few : history.length < Word.half64) :
    db.isEphemeral = start.isEphemeral := by
  have later : start.fields.store.Later db.fields.store := (run.serving few first).shows.sound
  exact later.isNone_location?

/-- Actions from command lines, executed on a database that was empty, keep to recorded orders. At
every point exactly the namespaces with an insert that succeeded have recorded orders, those of the
first, which no later action changes. The next action is refused only if its orders do not suit, and
then changes nothing; what it gives on a tree is what an ordered dictionary under the recorded
orders gives. Nothing else fails, but for compactions if their side file could not be built at the
start. -/
theorem actions_respect_recorded_orders {o : Opening} {disk : Disk} {start : Database}
    (sound : disk.Sound) (quiet : disk.Quiet) (opened : o.run disk = .ok start)
    (nothing : start.keyCount = 0) (run : Executed start history db) (spelled : a.Spelled)
    (takes : db.Takes a) (few : history.length + 1 < 2 ^ 63) :
    db.Keeps history ∧ (start.SideFree → db.SideFree) ∧
      history.Warrants db a (db.attempt a).1 (db.attempt a).2 ∧
      (db.attempt a).2.Keeps (history ++ [(a, (db.attempt a).1)]) ∧
      ∀ ns orders, history.recorded ns = some orders →
        (history ++ [(a, (db.attempt a).1)]).recorded ns = some orders := by
  have room : history.length + 1 < Word.half64 := few
  have first := serving_start sound quiet opened nothing
  have serving := run.serving (by omega) first
  obtain ⟨warrants, serving'⟩ := serving.step room spelled.sound takes
  refine ⟨serving.keeps (by omega), run.sideFree first (by omega), warrants, serving'.keeps ?_, ?_⟩
  · rw [List.length_append]
    exact room
  · intro ns orders recorded
    rw [History.recorded_append, recorded, Option.some_or]

/-- In memory: the first insert records the ascending order, so a key of another length is refused
behind it. -/
theorem recorded_orders_after_insert :
    ∃ (start db : Database) (history : History) (m : OrderMismatch),
      ({ ephemeral := true } : Opening).run {} = .ok start ∧ start.Executed history db ∧
      history.recorded 1 = some [.asc] ∧ history.catalog.entries 1 = [(["10"], "ten")] ∧
      db.Keeps history ∧
      (db.attempt (.request (.treeInsert 1 none ["9", "x"] "nine"))).1 =
        .error (.error (.orderMismatch m)) := by
  have quiet : Disk.Quiet {} := ⟨rfl, rfl⟩
  have first : (Action.request (.treeInsert 1 (some [.asc]) ["10"] "ten")).Spelled := .line
    (show Command.readLine ["tree", "insert", "1", "ten", "10", "--order", "asc"] = .ok _ by cbv)
  have second : (Action.request (.treeInsert 1 none ["9", "x"] "nine")).Spelled := .line
    (show Command.readLine ["tree", "insert", "1", "nine", "9", "x"] = .ok _ by cbv)
  obtain ⟨start, opened⟩ : ∃ start, ({ ephemeral := true } : Opening).run {} = .ok start := ⟨_, rfl⟩
  obtain ⟨cached, stored⟩ := Opening.run_in_memory rfl opened
  have nothing : start.keyCount = 0 := by
    rw [keyCount, stored]
    rfl
  have ephemeral : start.isEphemeral = true := by
    rw [isEphemeral, location, stored]
    rfl
  obtain ⟨-, -, inserted, -⟩ := actions_respect_recorded_orders Disk.sound_empty quiet opened
    nothing .start first (Or.inl ephemeral) (by decide)
  -- There are no orders that the first insert could fail to suit.
  have accepts : ¬ (History.catalog []).Refuses (.treeInsert 1 (some [.asc]) ["10"] "ten") := by
    rintro ⟨_, _, _, _, _, none_there, _⟩
    cases none_there
  obtain ⟨out, outcome, said⟩ := inserted.of_accepted accepts
  have run := Executed.start.step first (show start.Takes _ from Or.inl ephemeral)
  rw [outcome] at run
  have ephemeral' := run.isEphemeral_eq (serving_start Disk.sound_empty quiet opened nothing)
    (show 1 < Word.half64 by decide)
  rw [ephemeral] at ephemeral'
  obtain ⟨keeps, -, refused, -⟩ := actions_respect_recorded_orders Disk.sound_empty quiet opened
    nothing run second (Or.inl ephemeral') (show 2 < 2 ^ 63 by decide)
  have refuses : Catalog.Refuses
      (History.catalog [(.request (.treeInsert 1 (some [.asc]) ["10"] "ten"), .ok out)])
      (.treeInsert 1 none ["9", "x"] "nine") := by
    refine ⟨1, none, 2, ⟨[.asc], _⟩, rfl, rfl, ?_⟩
    rintro ⟨-, length⟩
    simp at length
  obtain ⟨⟨m, mismatch⟩, -⟩ := refused.of_refused refuses
  exact ⟨start, _, _, m, opened, run, rfl, rfl, keeps, mismatch⟩

/-! ### Limits -/

/-- A log refuses a value that is longer than the limit. -/
theorem attempt_mapSet_oversized {s : LogStore} (key : String) {value : String}
    (stored : db.fields.store = .log s) (long : Record.maxLength < value.toUTF8.size) :
    ∃ detail, (db.attempt (.request (.mapSet key value))).1 =
      .error (.error (.serialization detail)) := by
  have not_fit : ¬ Record.Fits ⟨(Key.map key).text.toUTF8, value.toUTF8⟩ :=
    fun fits => Nat.not_le.2 long fits.2
  obtain ⟨detail, refused⟩ := LogStore.write_oversized (s := s) not_fit
  have write : ByteStore.write (Key.map key).text.toUTF8 value.toUTF8 db.fields.store =
      .error (.serialization detail) db.fields.store := by
    rw [stored]
    exact Backend.use_log_of_error refused
  have put : FieldStore.put (Key.map key).text value db.fields =
      .error (.serialization detail) db.fields := by
    unfold FieldStore.put
    rw [write]
  have script : (Request.mapSet key value).script =
      .write (Key.map key).text value (.done .ok) := rfl
  refine ⟨detail, ?_⟩
  simp only [attempt, execute, perform, onFields, script, FieldStore.perform, put]

/-- In a directory, writing a value of one byte more than the limit fails, although the disk does
not. -/
theorem oversized_value_refused :
    ∃ (db : Database) (detail : String), Disk.Sound {} ∧ Disk.Quiet {} ∧
      ({ path := some ⟨"db"⟩ } : Opening).run {} = .ok db ∧ db.keyCount = 0 ∧
      Command.readLine ["map", "set", "huge", String.ofList (List.replicate 67108865 'x')] =
        .ok (.request (.mapSet "huge" (String.ofList (List.replicate 67108865 'x')))) ∧
      (db.attempt (.request (.mapSet "huge" (String.ofList (List.replicate 67108865 'x'))))).1 =
        .error (.error (.serialization detail)) := by
  obtain ⟨db, d, log, run, stored, nothing, -⟩ := Opening.run_in_new_directory
  have plain : ∀ n, Command.look (String.ofList (List.replicate (n + 1) 'x')) = .plain := by
    intro n
    unfold Command.look
    rw [String.toList_ofList]
    rfl
  have long : Record.maxLength < (String.ofList (List.replicate 67108865 'x')).toUTF8.size := by
    have length := Utf8.length_le_size_toUTF8 (List.replicate 67108865 'x')
    rw [List.length_replicate] at length
    exact length
  obtain ⟨detail, refused⟩ := attempt_mapSet_oversized "huge" stored long
  exact ⟨db, detail, Disk.sound_empty, ⟨rfl, rfl⟩, run, nothing,
    Command.readLine_mapSet rfl (plain 67108864), refused⟩

end Database

end FlatStore
