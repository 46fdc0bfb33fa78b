import FlatStore.Console.Invocation
import FlatStore.Proofs.Database.Opening

/-! # Runs of a database

    A run calls scripts on an open database, one after the other; the
    operations on maps, counters, flags, lists, pools and trees are all
    scripts. Between calls the database may be flushed, compacted, emptied of
    its cache, or closed and opened again.

    * `Database.answer_agrees`: two databases that show the same contents give
      the same answer to a call and show the same contents behind it.
    * `Interruption.apply_shows`: what happens between calls changes nothing of
      what a database shows.
    * `answers_despite_interruptions`: so a database in a directory answers all
      calls as one in memory does that is never interrupted, and requests in
      processes of their own come to what they come to on one open database.
-/

namespace FlatStore

variable {α : Type}

/-! ### Calls -/

/-- What a call gives, and the number of keys behind it. -/
structure Answer (α : Type) where
  outcome : Except Failure α
  keyCount : Nat

namespace Database

/-- Call a script. -/
def answer (call : Script α) (db : Database) : Answer α × Database :=
  match db.perform call with
  | .ok a db => (⟨.ok a, db.keyCount⟩, db)
  | .error e db => (⟨.error e, db.keyCount⟩, db)

/-- Call scripts one after the other. -/
def answers : List (Script α) → Database → List (Answer α) × Database
  | [], db => ([], db)
  | call :: calls, db =>
    let (first, db) := db.answer call
    let (rest, db) := answers calls db
    (first :: rest, db)

end Database

/-- What calls one after the other write is within the limits. -/
def WritesFit : List (Script α) → Contents → Prop
  | [], _ => True
  | call :: calls, c =>
    (∀ w ∈ call.writes c, Record.Fits ⟨w.1.toUTF8, w.2.toUTF8⟩) ∧
      WritesFit calls (leftBy (call.run c))

/-! ### Interruptions -/

/-- What can happen to a database between two calls. -/
inductive Interruption where
  | flush
  | compact
  | clearCache
  /-- Close the database, then open it again. -/
  | reopen (o : Opening)

namespace Interruption

/-- The database after an interruption, or why there is none. A compaction that fails leaves the
database in use. -/
def apply (db : Database) : Interruption → Except Error Database
  | flush =>
    match db.flush with
    | .ok () db => .ok db
    | .error e _ => .error e
  | compact => .ok (leftBy db.compact)
  | clearCache => .ok { db with fields := db.fields.clearCache }
  | reopen o =>
    match db.close with
    | (.error e, _) => .error e
    | (.ok (), disk) =>
      match o.run disk with
      | .error (e, _) => .error e
      | .ok db => .ok db

/-- Only openings that can follow on a log are used to open it again. -/
def Allowed (origin : LogStore) : Interruption → Prop
  | flush | compact | clearCache => True
  | reopen o => o.Follows origin

end Interruption

/-- A call, or what happens between calls. -/
inductive Step (α : Type) where
  | call (call : Script α)
  | interrupt (i : Interruption)

namespace Step

/-- The calls among some steps. -/
def calls : List (Step α) → List (Script α)
  | [] => []
  | call s :: steps => s :: calls steps
  | interrupt _ :: steps => calls steps

end Step

/-- The answers of the calls among some steps, if nothing between them fails. -/
def Database.answersThrough : List (Step α) → Database →
    Except Error (List (Answer α) × Database)
  | [], db => .ok ([], db)
  | .call s :: steps, db =>
    let (first, db) := db.answer s
    match answersThrough steps db with
    | .error e => .error e
    | .ok (rest, db) => .ok (first :: rest, db)
  | .interrupt i :: steps, db =>
    match i.apply db with
    | .error e => .error e
    | .ok db => answersThrough steps db

/-! ### What a database shows -/

namespace Database

variable {origin origin' : Backend} {log : LogStore} {db db' : Database} {c : Contents}

theorem keyCount_eq (h : db.Shows origin c) (h' : db'.Shows origin' c) :
    db.keyCount = db'.keyCount :=
  Backend.size_eq_of_contents (h.contents.trans h'.contents.symm)

/-- A call does on a database what its script does on the contents, as far as the store takes what
it writes. -/
theorem perform_simulates {view : StoreView Backend} (h : db.fields.Shows view c)
    {call : Script α} (takes : view.TakesAll (call.writes c)) :
    ∃ db' : Database, db'.fields.Shows view (leftBy (call.run c)) ∧
      db.perform call =
        match call.run c with
        | .ok a _ => .ok a db'
        | .error e _ => .error e db' := by
  obtain ⟨fields, simulated⟩ := FieldStore.perform_simulates h takes
  refine ⟨{ db with fields }, ?_⟩
  cases run : call.run c with
  | ok a c' =>
    rw [run] at simulated
    obtain ⟨performed, shows_after⟩ := simulated
    refine ⟨shows_after, ?_⟩
    simp only [perform, onFields, performed]
  | error e c' =>
    rw [run] at simulated
    obtain ⟨performed, shows_after⟩ := simulated
    refine ⟨shows_after, ?_⟩
    simp only [perform, onFields, performed]

theorem perform_shows (h : db.Shows origin c) {call : Script α}
    (fits : ∀ w ∈ call.writes c, Record.Fits ⟨w.1.toUTF8, w.2.toUTF8⟩) :
    ∃ db', db'.Shows origin (leftBy (call.run c)) ∧
      db.perform call =
        match call.run c with
        | .ok a _ => .ok a db'
        | .error e _ => .error e db' :=
  perform_simulates h fits

theorem answer_agrees (h : db.Shows origin c) (h' : db'.Shows origin' c) {call : Script α}
    (fits : ∀ w ∈ call.writes c, Record.Fits ⟨w.1.toUTF8, w.2.toUTF8⟩) :
    (db.answer call).1 = (db'.answer call).1 ∧
      (db.answer call).2.Shows origin (leftBy (call.run c)) ∧
      (db'.answer call).2.Shows origin' (leftBy (call.run c)) := by
  obtain ⟨after, shows_after, performed⟩ := perform_shows h fits
  obtain ⟨after', shows_after', performed'⟩ := perform_shows h' fits
  have count := keyCount_eq shows_after shows_after'
  unfold answer
  rw [performed, performed']
  cases run : call.run c with
  | ok a c' =>
    rw [run] at shows_after shows_after'
    simp only [count]
    exact ⟨trivial, shows_after, shows_after'⟩
  | error e c' =>
    rw [run] at shows_after shows_after'
    simp only [count]
    exact ⟨trivial, shows_after, shows_after'⟩

theorem flush_shows (h : db.Shows origin c) :
    ∃ db', db.flush = .ok () db' ∧ db'.Shows origin c := by
  obtain ⟨fields, shows_after, flushed⟩ := FieldStore.flush_shows h
  refine ⟨{ db with fields }, ?_, shows_after⟩
  unfold flush onFields
  rw [flushed]

theorem compact_shows (h : db.Shows origin c) : (leftBy db.compact).Shows origin c := by
  obtain ⟨later, contents⟩ := Backend.compact_later h.sound
  have left : leftBy db.compact =
      { db with fields.store := leftBy (Backend.compact db.fields.store) } := by
    unfold compact onBackend
    cases Backend.compact db.fields.store <;> rfl
  rw [left]
  exact ⟨later, contents.trans h.contents, h.cached⟩

/-- A database in a directory lets go of a log that holds what the database shows. -/
theorem release_shows (h : db.Shows (.log log) c) :
    ∃ s, log.Later s ∧ (Backend.log s).contents = c ∧ db.release = s.release := by
  obtain ⟨later, contents, -⟩ := h
  cases stored : db.fields.store with
  | memory store disk =>
    rw [stored] at later
    cases later
  | log s =>
    rw [stored] at later contents
    cases later with
    | log later =>
      refine ⟨s, later, contents, ?_⟩
      unfold release
      rw [stored]
      rfl

theorem close_shows (h : db.Shows (.log log) c) :
    ∃ s, log.Later s ∧ (Backend.log s).contents = c ∧ db.close = (.ok (), s.release) := by
  obtain ⟨db', flushed, shows_after⟩ := flush_shows h
  obtain ⟨s, later, contents, released⟩ := release_shows shows_after
  refine ⟨s, later, contents, ?_⟩
  unfold close
  simp only [flushed, released]

end Database

variable {origin : Backend} {log : LogStore} {db db' : Database} {c : Contents}

/-- Whatever happens between calls, a database in a directory shows the same contents. -/
theorem Interruption.apply_shows (calm : log.disk.Calm) (h : db.Shows (.log log) c)
    {i : Interruption} (allowed : i.Allowed log) :
    ∃ db', i.apply db = .ok db' ∧ db'.Shows (.log log) c := by
  cases i with
  | flush =>
    obtain ⟨db', flushed, shows_after⟩ := Database.flush_shows h
    refine ⟨db', ?_, shows_after⟩
    unfold Interruption.apply
    rw [flushed]
  | compact => exact ⟨_, rfl, Database.compact_shows h⟩
  | clearCache => exact ⟨_, rfl, FieldStore.Shows.clearCache h⟩
  | reopen o =>
    -- Closing lets go of a log in step, which is opened again behind it.
    obtain ⟨s, later, contents, closed⟩ := Database.close_shows h
    obtain ⟨db', run, shows_after⟩ := Opening.run_again allowed calm later
    rw [contents] at shows_after
    refine ⟨db', ?_, shows_after⟩
    unfold Interruption.apply
    simp only [closed, run]

/-- Two databases that show the same contents, of which one is in a directory and interrupted, give
the same answers and show the same contents in the end. -/
theorem Database.answersThrough_agrees (calm : log.disk.Calm) (h : db.Shows (.log log) c)
    (h' : db'.Shows origin c) {steps : List (Step α)}
    (allowed : ∀ i, .interrupt i ∈ steps → i.Allowed log) (fits : WritesFit (Step.calls steps) c) :
    ∃ after c', db.answersThrough steps = .ok ((db'.answers (Step.calls steps)).1, after) ∧
      after.Shows (.log log) c' ∧ (db'.answers (Step.calls steps)).2.Shows origin c' := by
  -- Both show the same contents before every call, and an interruption keeps those of the one.
  induction steps generalizing db db' c with
  | nil => exact ⟨db, c, rfl, h, h'⟩
  | cons step steps ih =>
    have rest : ∀ i, .interrupt i ∈ steps → i.Allowed log :=
      fun i hi => allowed i (List.mem_cons_of_mem step hi)
    cases step with
    | call s =>
      obtain ⟨here, later⟩ := fits
      obtain ⟨same, shows_after, shows_after'⟩ := answer_agrees h h' here
      obtain ⟨after, c', run, last, last'⟩ := ih shows_after shows_after' rest later
      refine ⟨after, c', ?_, last, last'⟩
      simp only [answersThrough, Step.calls, answers, run, same]
    | interrupt i =>
      obtain ⟨between, applied, shows_after⟩ := i.apply_shows calm h (allowed i List.mem_cons_self)
      obtain ⟨after, c', run, last, last'⟩ := ih shows_after h' rest fits
      refine ⟨after, c', ?_, last, last'⟩
      simp only [answersThrough, applied, run]
      rfl

/-! ### Processes -/

namespace Console

/-- Run requests, each in a process of its own. -/
def runApart (o : Opening) : List Request → Disk → List Transcript × Disk
  | [], disk => ([], disk)
  | request :: requests, disk =>
    let (first, disk) := Invocation.run ⟨o, some (.ok (.request request))⟩ .empty disk
    let (rest, disk) := runApart o requests disk
    (first :: rest, disk)

/-- Run requests on one open database. -/
def runTogether : List Request → Database → List Transcript × Database
  | [], db => ([], db)
  | request :: requests, db =>
    let (verdict, db) := runAction (.request request) db
    let (rest, db) := runTogether requests db
    (.ofVerdict verdict :: rest, db)

/-- What a request comes to. -/
def verdictOf : Except Failure Output → Verdict
  | .ok output => .printed output
  | .error (.error e) => .refused (.error e)
  | .error failure => .abandoned failure

theorem runAction_request (request : Request) (db : Database) :
    runAction (.request request) db =
      (verdictOf (db.answer request.script).1.outcome, (db.answer request.script).2) := by
  unfold runAction Database.answer
  cases run : db.perform request.script with
  | ok output db' =>
    simp only [Database.execute, run]
    rfl
  | error failure db' =>
    cases failure <;> simp only [Database.execute, run] <;> rfl

/-- Whatever a run came to, the log that it leaves behind holds what the database showed. -/
theorem finish_shows (h : db.Shows (.log log) c) (t : Transcript) :
    ∃ s, log.Later s ∧ (Backend.log s).contents = c ∧ Invocation.finish t db = (t, s.release) := by
  unfold Invocation.finish
  by_cases abandoned : t.abandoned.isSome = true
  · obtain ⟨s, later, contents, released⟩ := Database.release_shows h
    refine ⟨s, later, contents, ?_⟩
    rw [if_pos abandoned, released]
  · obtain ⟨s, later, contents, closed⟩ := Database.close_shows h
    refine ⟨s, later, contents, ?_⟩
    rw [if_neg abandoned, closed]

/-- Requests in processes of their own come to what they come to on one open database. -/
theorem runApart_agrees {o : Opening} (follows : o.Follows log) (calm : log.disk.Calm)
    {requests : List Request} {disk : Disk}
    (h : ∃ db, o.run disk = .ok db ∧ db.Shows (.log log) c) (h' : db'.Shows origin c)
    (fits : WritesFit (requests.map Request.script) c) :
    (runApart o requests disk).1 = (runTogether requests db').1 ∧
      ∃ after, o.run (runApart o requests disk).2 = .ok after ∧
        after.fields.store.contents = (runTogether requests db').2.fields.store.contents := by
  induction requests generalizing disk db' c with
  | nil =>
    obtain ⟨db, opened, shows_before⟩ := h
    exact ⟨rfl, db, opened, shows_before.contents.trans h'.contents.symm⟩
  | cons request requests ih =>
    obtain ⟨db, opened, shows_before⟩ := h
    obtain ⟨here, later_fits⟩ := fits
    obtain ⟨same, shows_after, shows_after'⟩ := Database.answer_agrees shows_before h' here
    -- The process ends by letting go of the log, and the next one opens it again.
    obtain ⟨s, later, contents, finished⟩ :=
      finish_shows shows_after (.ofVerdict (verdictOf (db.answer request.script).1.outcome))
    have again := Opening.run_again follows calm later
    rw [contents] at again
    obtain ⟨rest, last⟩ := ih again shows_after' later_fits
    have process : Invocation.run ⟨o, some (.ok (.request request))⟩ .empty disk =
        (.ofVerdict (verdictOf (db.answer request.script).1.outcome), s.release) := by
      unfold Invocation.run Invocation.runOn
      simp only [opened, runAction_request, finished]
    simp only [runApart, runTogether, process, runAction_request, rest, same]
    exact ⟨trivial, last⟩

end Console

/-- A database that was opened in a directory without contents answers all calls as one in memory
does, whatever happens to it between them: flushing, compacting, emptying the cache, closing and
opening with any settings. And from whatever it was opened with, requests in processes of their own
come to what they come to on one open database. -/
theorem Database.answers_despite_interruptions {o : Opening} {disk : Disk} {db : Database}
    {log : LogStore} (sound : disk.Sound) (quiet : disk.Quiet) (opened : o.run disk = .ok db)
    (stored : db.fields.store = .log log) :
    (∀ (α : Type) (steps : List (Step α)) (e : Opening) (disk' : Disk) (memory : Database),
      e.ephemeral = true → e.run disk' = .ok memory → db.keyCount = 0 →
      (∀ i, .interrupt i ∈ steps → i.Allowed log) →
      WritesFit (Step.calls steps) (fun _ => none) →
      ∃ db', db.answersThrough steps = .ok ((memory.answers (Step.calls steps)).1, db') ∧
        db'.fields.store.contents =
          (memory.answers (Step.calls steps)).2.fields.store.contents) ∧
      ∀ requests : List Request, o.Follows log →
        WritesFit (requests.map Request.script) db.fields.store.contents →
        (Console.runApart o requests disk).1 = (Console.runTogether requests db).1 ∧
          ∃ db', o.run (Console.runApart o requests disk).2 = .ok db' ∧
            db'.fields.store.contents =
              (Console.runTogether requests db).2.fields.store.contents := by
  obtain ⟨quiet', shows_start⟩ := Opening.run_shows sound quiet opened stored
  refine ⟨?_, ?_⟩
  · intro α steps e disk' memory ephemeral opened' none_held allowed fits
    have place : e.location = .ok none := by
      unfold Opening.location
      rw [if_pos ephemeral]
    obtain ⟨cached, store⟩ := Opening.run_in_memory place opened'
    have shows_memory : memory.Shows memory.fields.store memory.fields.store.contents := by
      refine Database.shows_of_uncached ?_ cached
      rw [store]
      exact .memory
    have empty_memory : memory.fields.store.contents = fun _ => none := by
      rw [store]
      funext key
      exact Std.TreeMap.getElem?_emptyc
    have empty : db.fields.store.contents = fun _ => none :=
      Backend.contents_of_size_eq_zero none_held
    rw [empty_memory] at shows_memory
    rw [empty] at shows_start
    obtain ⟨after, c', run, last, last'⟩ :=
      Database.answersThrough_agrees quiet'.1 shows_start shows_memory allowed fits
    exact ⟨after, run, last.contents.trans last'.contents.symm⟩
  · intro requests follows fits
    exact Console.runApart_agrees follows quiet'.1 ⟨db, opened, shows_start⟩ shows_start fits

/-- In an empty directory: a value that was written is read behind a compaction and another opening,
as in memory; and so it is when each request has a process of its own. -/
theorem Database.answers_after_reopening :
    ∃ db db' : Database, ({ path := some ⟨"db"⟩ } : Opening).run {} = .ok db ∧
      db.answersThrough [.call (Request.mapSet "key" "value").script, .interrupt .compact,
          .interrupt (.reopen { path := some ⟨"db"⟩, cache := some (.lru 1) }),
          .call (Request.mapGet "key").script] =
        .ok ([⟨.ok .ok, 1⟩, ⟨.ok (.text "value"), 1⟩], db') ∧
      (Console.runApart { path := some ⟨"db"⟩ } [.mapSet "key" "value", .mapGet "key"] {}).1 =
        (Console.runTogether [.mapSet "key" "value", .mapGet "key"] db).1 := by
  have quiet : Disk.Quiet {} := ⟨rfl, rfl⟩
  obtain ⟨db, d, log, run, stored, nothing, location, read⟩ := Opening.run_in_new_directory
  have follows : ∀ o : Opening, o.location = .ok (some ⟨"db"⟩) →
      (o.combine none).validate = .ok () → o.Follows ⟨d, log⟩ := by
    intro o place valid
    rw [← location] at place read
    exact ⟨place, none, d, read, valid⟩
  have fits : WritesFit ([.mapSet "key" "value", .mapGet "key"].map Request.script)
      fun _ => none := by
    refine ⟨?_, List.forall_mem_nil _, trivial⟩
    intro w hw
    rw [List.mem_singleton.1 hw]
    constructor <;> decide
  obtain ⟨interrupted, apart⟩ :=
    Database.answers_despite_interruptions Disk.sound_empty quiet run stored
  have allowed : ∀ i, .interrupt i ∈ [Step.call (Request.mapSet "key" "value").script,
      .interrupt .compact, .interrupt (.reopen { path := some ⟨"db"⟩, cache := some (.lru 1) }),
      .call (Request.mapGet "key").script] → i.Allowed ⟨d, log⟩ := by
    intro i hi
    simp only [List.mem_cons, reduceCtorEq, Step.interrupt.injEq, List.not_mem_nil, or_false,
      false_or] at hi
    rcases hi with rfl | rfl
    · trivial
    · exact follows _ rfl rfl
  obtain ⟨db', answered, -⟩ :=
    interrupted Output _ { ephemeral := true } {} _ rfl rfl nothing allowed fits
  refine ⟨db, db', run, answered, (apart _ (follows _ rfl rfl) ?_).1⟩
  rwa [Backend.contents_of_size_eq_zero nothing]

end FlatStore
