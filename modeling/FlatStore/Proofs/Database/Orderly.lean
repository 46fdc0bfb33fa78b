import FlatStore.Proofs.Database.Alike

/-! # Databases in order

    A database is in order if its fields are as some catalog has them
    (`Database.Orderly`). One that is opened without contents is, and so is every
    one that sound actions lead to, whether they succeed or not.

    * **Step**: an action is carried out, or fails for one of three reasons
      (`Database.Due`); either way the database behind it is in order
      (`Orderly.attempt`).
    * **Mismatches** of orders are found before anything is written.
    * **Records that are too long** are found on the way, behind writes that are
      not taken back (`Database.CutShort`). They still leave the fields as some
      catalog has them.
    * **Compactions** fail only where their side file cannot be built.
-/

namespace FlatStore

namespace Database

/-- The fields are as some catalog has them after `n` actions. -/
structure Orderly (origin : Backend) (n : Nat) (db : Database) : Prop where
  shows : db.Shows origin db.contents
  holds : ∃ k : Catalog, k.HoldsIn n db.contents

/-- A request that a log does not take ends in front of the first record that is too long, and what
it wrote before stays. The first insert into a namespace writes its orders before anything else, so
these stay recorded, unless they are what is too long. -/
structure CutShort (db : Database) (r : Request) (db' : Database) : Prop where
  long : ¬ db.Takes (.request r)
  kept : ∃ first, r.script.CutAt db.contents first ∧ db'.contents = db.contents.putAll first
  orders : ∀ {ns : FileId} {requested : Option (List KeyOrder)} {key : List String} {data : String},
    r = .treeInsert ns requested key data →
    (Tree.recordedOrders ns).run db.contents = .ok none db.contents →
    (Tree.ordersRecord ns (Tree.ordersFor requested key.length)).Fits →
    (Tree.recordedOrders ns).run db'.contents =
      .ok (some (Tree.ordersFor requested key.length)) db'.contents

/-- What an action may come to on a database in order, and what it leaves. -/
inductive Due (db : Database) : Action → Except Failure Output → Database → Prop where
  | done {a : Action} {out : Output} {db' : Database} : Due db a (.ok out) db'
  /-- The orders do not suit the recorded ones, and nothing is written. -/
  | mismatched {r : Request} {m : OrderMismatch} {db' : Database}
      (silent : r.script.writes db.contents = []) :
      Due db (.request r) (.error (.error (.orderMismatch m))) db'
  /-- A log does not take what the request writes. -/
  | oversized {r : Request} {detail : String} {db' : Database} (cut : db.CutShort r db') :
      Due db (.request r) (.error (.error (.serialization detail))) db'
  /-- Only where the side file cannot be built the file system refuses a compaction. -/
  | uncompacted {detail : String} {db' : Database} (blocked : ¬ db.SideFree) :
      Due db .compact (.error (.error (.io detail))) db'

variable {origin : Backend} {n m : Nat} {db db' : Database} {c : Contents} {a : Action}
  {r : Request}

theorem orderly_of_shows (h : db.Shows origin c) (holds : ∃ k : Catalog, k.HoldsIn n c) :
    db.Orderly origin n := by
  obtain rfl := h.contents
  exact ⟨h, holds⟩

/-- On a log a request fits, or it ends in front of the first record that is too long. -/
theorem attempt_on_log {log : LogStore} (h : db.Shows (.log log) db.contents) (r : Request) :
    (∀ w ∈ r.script.writes db.contents, Record.Fits ⟨w.1.toUTF8, w.2.toUTF8⟩) ∨
      ∃ first detail, r.script.CutAt db.contents first ∧
        (db.attempt (.request r)).1 = .error (.error (.serialization detail)) ∧
        (db.attempt (.request r)).2.Shows (.log log) (db.contents.putAll first) := by
  rcases FieldStore.perform_on_log h r.script with
    fit | ⟨first, detail, fields, cut, performed, shows_after⟩
  · exact Or.inl fit
  · have attempted : db.attempt (.request r) =
        (.error (.error (.serialization detail)), { db with fields }) := by
      simp only [attempt, execute, perform, onFields, performed]
    refine Or.inr ⟨first, detail, cut, ?_⟩
    rw [attempted]
    exact ⟨rfl, shows_after⟩

namespace Orderly

/-- Where the side file of a compaction could be built at first, it still can. -/
theorem sideFree (h : db.Orderly origin n) (free : origin.SideFree) : db.SideFree :=
  Backend.Later.sideFree h.shows.sound free

theorem mono (h : db.Orderly origin n) (le : n ≤ m) : db.Orderly origin m := by
  obtain ⟨k, holds⟩ := h.holds
  exact ⟨h.shows, k, fun S => (holds S).frame (fun _ _ => rfl) le fun _ _ => rfl⟩

/-- A request whose writes are taken succeeds, or is refused before it writes. -/
theorem attempt_taken (h : db.Orderly origin n) (few : n + 1 < Word.half64) (sound : r.Sound)
    (takes : db.Takes (.request r)) :
    db.Due (.request r) (db.attempt (.request r)).1 (db.attempt (.request r)).2 ∧
      (db.attempt (.request r)).2.Orderly origin (n + 1) := by
  obtain ⟨k, holds⟩ := h.holds
  have attempted := attempt_request h.shows takes
  by_cases refuses : k.Refuses r
  · obtain ⟨m, run⟩ := holds.refuses sound refuses
    rw [run] at attempted
    obtain ⟨outcome, shows_after⟩ := attempted
    rw [outcome]
    exact ⟨.mismatched (holds.writes_of_refuses sound refuses),
      orderly_of_shows shows_after ⟨k, holds.idle⟩⟩
  · obtain ⟨out, c', run, -, holds'⟩ := holds.serves few sound refuses
    rw [run] at attempted
    obtain ⟨outcome, shows_after⟩ := attempted
    rw [outcome]
    exact ⟨.done, orderly_of_shows shows_after ⟨_, holds'⟩⟩

/-- The first insert into a namespace keeps its orders, wherever it is cut short behind them. -/
theorem recorded_of_cut {log : LogStore} {ns : FileId} {requested : Option (List KeyOrder)}
    {key : List String} {data : String} {first : List (String × String)}
    (h : db.Orderly (.log log) n) (few : n + 1 < Word.half64)
    (sound : (Request.treeInsert ns requested key data).Sound)
    (cut : (Request.treeInsert ns requested key data).script.CutAt db.contents first)
    (absent : (Tree.recordedOrders ns).run db.contents = .ok none db.contents)
    (fits : (Tree.ordersRecord ns (Tree.ordersFor requested key.length)).Fits) :
    (Tree.recordedOrders ns).run (db.contents.putAll first) =
      .ok (some (Tree.ordersFor requested key.length)) (db.contents.putAll first) := by
  obtain ⟨k, holds⟩ := h.holds
  have later : (Backend.log log).Later db.fields.store := h.shows.sound
  have word : Word.half64 < Word.size64 := by decide
  have fresh := holds.absent_of_run absent
  obtain ⟨k', holds', orders⟩ := holds.cut_insert (by omega) later.short sound
    (Catalog.not_refuses_of_none fresh rfl) cut
  rw [holds'.run_recordedOrders ns, orders fresh fits]

/-- A request whose writes are not all taken is cut short. -/
theorem attempt_cut (h : db.Orderly origin n) (few : n + 1 < Word.half64) (sound : r.Sound)
    (long : ¬ db.Takes (.request r)) :
    (∃ detail, (db.attempt (.request r)).1 = .error (.error (.serialization detail))) ∧
      db.CutShort r (db.attempt (.request r)).2 ∧
      (db.attempt (.request r)).2.Orderly origin (n + 1) := by
  obtain ⟨k, holds⟩ := h.holds
  have later : origin.Later db.fields.store := h.shows.sound
  have word : Word.half64 < Word.size64 := by decide
  cases origin with
  | memory store disk =>
    -- Memory takes everything.
    refine absurd (Or.inl ?_) long
    rw [isEphemeral, location, later.isNone_location?]
    rfl
  | log log =>
    rcases attempt_on_log h.shows r with fit | ⟨first, detail, cut, outcome, shows_after⟩
    · exact absurd (Or.inr fit) long
    · have contents : (db.attempt (.request r)).2.contents = db.contents.putAll first :=
        shows_after.contents
      refine ⟨⟨detail, outcome⟩, ⟨long, ⟨first, cut, contents⟩, ?_⟩, orderly_of_shows shows_after
        (holds.cut_short (by omega) sound later.short cut)⟩
      rintro ns requested key data rfl absent fits
      rw [contents]
      exact h.recorded_of_cut few sound cut absent fits

/-- Whatever a sound action comes to, the database behind it is in order. -/
theorem attempt (h : db.Orderly origin n) (few : n + 1 < Word.half64) (sound : a.Sound) :
    db.Due a (db.attempt a).1 (db.attempt a).2 ∧ (db.attempt a).2.Orderly origin (n + 1) := by
  cases a with
  | compact =>
    obtain ⟨k, holds⟩ := h.holds
    obtain ⟨shows_after, comes⟩ := attempt_compact h.shows
    refine ⟨?_, orderly_of_shows shows_after ⟨k, holds.idle⟩⟩
    rcases comes with ⟨saved, outcome⟩ | ⟨blocked, detail, outcome⟩
    · rw [outcome]
      exact .done
    · rw [outcome]
      exact .uncompacted blocked
  | request r =>
    by_cases takes : db.Takes (.request r)
    · exact h.attempt_taken few sound takes
    · obtain ⟨⟨detail, outcome⟩, cut, orderly⟩ := h.attempt_cut few sound takes
      rw [outcome]
      exact ⟨.oversized cut, orderly⟩

end Orderly

end Database

end FlatStore
