import FlatStore.Proofs.Database.Orderly

/-! # Lines that are refused leave no trace

    Lines are tried one after the other, each on the database as the line before
    has left it (`tryLines`).

    * **Single lines** are skipped, refused for their words, or stand for an
      action (`runLine_cases`). On a database in order a line that fails is
      rejected, or is cut short where a record is too long for the log, or is a
      compaction without room for its side file (`Trial.Regular`).
    * **Two runs**: a line that is rejected leaves a database that cannot be told
      from the one on which it was never tried, and any other line comes to the
      same on both (`tryLines_kept`).
    * **Processes** start with what earlier ones have produced (`Produced`). So
      what is rejected could as well be deleted from the input
      (`rejected_lines_leave_no_trace`).
-/

namespace FlatStore.Console

/-! ### Trials -/

/-- Whether a line was refused for its words, its values or its orders. -/
def Verdict.rejected : Verdict → Bool
  | .refused (.unbalanced _) | .refused (.usage _) | .refused (.action _)
  | .refused (.error (.orderMismatch _)) => true
  | _ => false

/-- A line that was tried, the database it was tried on, what it came to, and the database behind
it. -/
structure Trial where
  text : String
  start : Database
  verdict : Verdict
  behind : Database

/-- Try lines, the first of which has the given number, each on the database as the line before has
left it. -/
def tryLines (number : Nat) : List String → Database → List Trial × Database
  | [], db => ([], db)
  | text :: rest, db =>
    let here := runLine number text db
    let others := tryLines (number + 1) rest here.2
    (⟨text, db, here.1, here.2⟩ :: others.1, others.2)

/-- The lines that were not rejected. -/
def kept (trials : List Trial) : List String :=
  (trials.filter fun t => !t.verdict.rejected).map Trial.text

/-- What lines have come to, put together. -/
def Transcript.ofVerdicts (verdicts : List Verdict) : Transcript :=
  verdicts.foldr (fun verdict t => t.after verdict) {}

/-- The line stands for an action. -/
def Asks (text : String) (a : Action) : Prop :=
  ∃ words, Words.split (Text.trim text) = some words ∧ Command.readLine words = .ok a

/-- A line is tried unless it is blank or a comment. One that fails is rejected, or it is a request
that is cut short behind its first writes, or a compaction whose side file cannot be built. -/
structure Trial.Regular (t : Trial) : Prop where
  tried : t.verdict = .skipped ↔ isIdle (Text.trim t.text) = true
  completed : ∀ why, t.verdict ≠ .abandoned why
  failed : t.verdict.failed = true → t.verdict.rejected = true ∨
    (∃ r detail, Asks t.text (.request r) ∧ t.start.CutShort r t.behind ∧
      t.verdict = .refused (.error (.serialization detail))) ∨
    Asks t.text .compact ∧ ¬ t.start.SideFree ∧
      ∃ detail, t.verdict = .refused (.error (.io detail))

/-! ### Transcripts -/

namespace Transcript

/-- Nothing is complained about exactly if no line has failed. -/
theorem exitCode_ofVerdicts (verdicts : List Verdict) :
    (ofVerdicts verdicts).exitCode = 0 ↔ ∀ v ∈ verdicts, v.failed = false := by
  induction verdicts with
  | nil => exact ⟨fun _ => List.forall_mem_nil _, fun _ => rfl⟩
  | cons v verdicts ih =>
    have step : ofVerdicts (v :: verdicts) = (ofVerdicts verdicts).after v := rfl
    rw [List.forall_mem_cons, step, ← ih]
    cases v with
    | skipped => exact ⟨fun code => ⟨rfl, code⟩, fun h => h.2⟩
    | printed output => exact ⟨fun code => ⟨rfl, code⟩, fun h => h.2⟩
    | refused why =>
      have code : ((ofVerdicts verdicts).after (.refused why)).exitCode ≠ 0 := by
        unfold exitCode
        split
        · decide
        · simp [after]
      exact ⟨fun zero => absurd zero code, fun h => by cases h.1⟩
    | abandoned why =>
      have code : ((ofVerdicts verdicts).after (.abandoned why)).exitCode ≠ 0 := by
        simp [after, exitCode]
      exact ⟨fun zero => absurd zero code, fun h => by cases h.1⟩

/-- Verdicts that print nothing do not matter to what is printed. -/
theorem outputs_ofVerdicts_filter {p : Verdict → Bool} (silent : ∀ v t, p v = false →
    (Transcript.after t v).outputs = t.outputs) (verdicts : List Verdict) :
    (ofVerdicts (verdicts.filter p)).outputs = (ofVerdicts verdicts).outputs := by
  induction verdicts with
  | nil => rfl
  | cons v verdicts ih =>
    have step : ∀ vs, ofVerdicts (v :: vs) = (ofVerdicts vs).after v := fun _ => rfl
    cases keeps : p v with
    | true =>
      rw [List.filter_cons_of_pos keeps, step, step]
      cases v with
      | skipped => exact ih
      | printed output => exact congrArg (output :: ·) ih
      | refused why => exact ih
      | abandoned why => rfl
    | false =>
      rw [List.filter_cons_of_neg (by simp [keeps]), step, silent _ _ keeps]
      exact ih

theorem abandoned_ofVerdicts {verdicts : List Verdict}
    (completed : ∀ v ∈ verdicts, ∀ why, v ≠ .abandoned why) :
    (ofVerdicts verdicts).abandoned = none := by
  induction verdicts with
  | nil => rfl
  | cons v verdicts ih =>
    obtain ⟨here, rest⟩ := List.forall_mem_cons.1 completed
    cases v with
    | skipped => exact ih rest
    | printed output => exact ih rest
    | refused why => exact ih rest
    | abandoned why => exact absurd rfl (here why)

end Transcript

/-! ### Single lines -/

variable {origin : Backend} {db db' : Database} {n number : Nat} {text : String}

theorem runAction_eq (a : Action) (db : Database) :
    runAction a db = (verdictOf (db.attempt a).1, (db.attempt a).2) := by
  unfold runAction Database.attempt
  cases Database.execute a db with
  | ok out db' => rfl
  | error failure db' => cases failure <;> rfl

theorem runLine_unbalanced (tried : isIdle (Text.trim text) = false)
    (split : Words.split (Text.trim text) = none) (number : Nat) (db : Database) :
    runLine number text db = (.refused (.unbalanced number), db) := by
  simp only [runLine, tried, split, Bool.false_eq_true, if_false]

theorem runLine_usage {words : List String} {e : Command.UsageError}
    (tried : isIdle (Text.trim text) = false) (split : Words.split (Text.trim text) = some words)
    (read : Command.readLine words = .error (.usage e)) (number : Nat) (db : Database) :
    runLine number text db = (.refused (.usage number), db) := by
  simp only [runLine, tried, split, read, Bool.false_eq_true, if_false]

theorem Asks.run {a : Action} (h : Asks text a) (tried : isIdle (Text.trim text) = false)
    (number : Nat) (db : Database) : runLine number text db = runAction a db := by
  obtain ⟨words, split, read⟩ := h
  simp only [runLine, tried, split, read, Bool.false_eq_true, if_false]

/-- A line is skipped, or refused for its words, or stands for an action, whatever its number and
whatever the database. -/
theorem runLine_cases (text : String) :
    (isIdle (Text.trim text) = true ∧ ∀ number db, runLine number text db = (.skipped, db)) ∨
    isIdle (Text.trim text) = false ∧
      ((∀ number, ∃ why, (Verdict.refused why).rejected = true ∧
        ∀ db, runLine number text db = (.refused why, db)) ∨
      ∃ a, Asks text a ∧ ∀ number db, runLine number text db = runAction a db) := by
  cases idle : isIdle (Text.trim text) with
  | true =>
    refine Or.inl ⟨rfl, fun number db => ?_⟩
    simp only [runLine, idle, if_true]
  | false =>
    refine Or.inr ⟨rfl, ?_⟩
    cases split : Words.split (Text.trim text) with
    | none =>
      exact Or.inl fun number => ⟨.unbalanced number, rfl, runLine_unbalanced idle split number⟩
    | some words =>
      cases read : Command.readLine words with
      | ok a =>
        have asks : Asks text a := ⟨words, split, read⟩
        exact Or.inr ⟨a, asks, asks.run idle⟩
      | error fault =>
        refine Or.inl fun number => ?_
        cases fault with
        | usage e => exact ⟨.usage number, rfl, runLine_usage idle split read number⟩
        | action fault =>
          refine ⟨.action fault, rfl, fun db => ?_⟩
          simp only [runLine, idle, split, read, Bool.false_eq_true, if_false]

theorem Asks.sound {a : Action} (h : Asks text a) : a.Sound := by
  obtain ⟨words, -, read⟩ := h
  exact (Action.Spelled.line read).sound

/-- What an action on a database in order comes to. -/
theorem regular_of_due {a : Action} {outcome : Except Failure Output} (due : db.Due a outcome db')
    (asks : Asks text a) (tried : isIdle (Text.trim text) = false) :
    Trial.Regular ⟨text, db, verdictOf outcome, db'⟩ := by
  have regular : ∀ {v : Verdict}, v ≠ .skipped → (∀ why, v ≠ .abandoned why) →
      (v.failed = true → v.rejected = true ∨
        (∃ r detail, Asks text (.request r) ∧ db.CutShort r db' ∧
          v = .refused (.error (.serialization detail))) ∨
        Asks text .compact ∧ ¬ db.SideFree ∧ ∃ detail, v = .refused (.error (.io detail))) →
      Trial.Regular ⟨text, db, v, db'⟩ := by
    intro v not_skipped completed failed
    exact ⟨⟨fun skipped => absurd skipped not_skipped, fun idle => by simp [tried] at idle⟩,
      completed, failed⟩
  cases due with
  | done => exact regular nofun nofun nofun
  | mismatched => exact regular nofun nofun fun _ => Or.inl rfl
  | oversized cut =>
    exact regular nofun nofun fun _ => Or.inr (Or.inl ⟨_, _, asks, cut, rfl⟩)
  | uncompacted blocked =>
    exact regular nofun nofun fun _ => Or.inr (Or.inr ⟨asks, blocked, _, rfl⟩)

/-- Whatever a line comes to, the database behind it is in order. -/
theorem runLine_orderly (h : db.Orderly origin n) (few : n + 1 < Word.half64) (number : Nat)
    (text : String) :
    Trial.Regular ⟨text, db, (runLine number text db).1, (runLine number text db).2⟩ ∧
      (runLine number text db).2.Orderly origin (n + 1) := by
  rcases runLine_cases text with ⟨idle, skipped⟩ | ⟨tried, refused | ⟨a, asks, acts⟩⟩
  · rw [skipped]
    exact ⟨⟨⟨fun _ => idle, fun _ => rfl⟩, nofun, nofun⟩, h.mono (Nat.le_succ n)⟩
  · obtain ⟨why, rejected, run⟩ := refused number
    rw [run]
    exact ⟨⟨⟨nofun, fun idle => by simp [tried] at idle⟩, nofun, fun _ => Or.inl rejected⟩,
      h.mono (Nat.le_succ n)⟩
  · obtain ⟨due, orderly⟩ := h.attempt few asks.sound
    rw [acts, runAction_eq]
    exact ⟨regular_of_due due asks tried, orderly⟩

/-- A line that is rejected leaves a database like the one on which it was not tried. -/
theorem runLine_rejected (h : db.Orderly origin n) (few : n + 1 < Word.half64)
    (alike : Database.Alike origin db db')
    (rejected : (runLine number text db).1.rejected = true) :
    Database.Alike origin (runLine number text db).2 db' := by
  rcases runLine_cases text with ⟨-, skipped⟩ | ⟨-, refused | ⟨a, asks, acts⟩⟩
  · rw [skipped]
    exact alike
  · obtain ⟨why, -, run⟩ := refused number
    rw [run]
    exact alike
  · rw [acts, runAction_eq] at rejected ⊢
    have due := (h.attempt few asks.sound).1
    generalize (db.attempt a).1 = outcome at due rejected
    -- Of what an action may fail for, only a mismatch of orders is a rejection.
    cases due with
    | mismatched silent => exact alike.silent silent
    | done => cases rejected
    | oversized => cases rejected
    | uncompacted => cases rejected

/-- A line that is not rejected comes to the same on databases that are alike, whatever its
number. -/
theorem runLine_kept (alike : Database.Alike origin db db')
    (keeps : (runLine number text db).1.rejected = false) (number' : Nat) :
    (runLine number text db).1 = (runLine number' text db').1 ∧
      Database.Alike origin (runLine number text db).2 (runLine number' text db').2 := by
  rcases runLine_cases text with ⟨-, skipped⟩ | ⟨-, refused | ⟨a, asks, acts⟩⟩
  · rw [skipped, skipped]
    exact ⟨rfl, alike⟩
  · obtain ⟨why, rejected, run⟩ := refused number
    rw [run, rejected] at keeps
    cases keeps
  · obtain ⟨same, after⟩ := alike.attempt a
    rw [acts, acts, runAction_eq, runAction_eq, same]
    exact ⟨rfl, after⟩

/-! ### Many lines -/

theorem kept_cons_of_rejected {v : Verdict} (h : v.rejected = true) (text : String)
    (start behind : Database) (trials : List Trial) :
    kept (⟨text, start, v, behind⟩ :: trials) = kept trials := by
  rw [kept, List.filter_cons_of_neg (by simp [h])]
  rfl

theorem kept_cons_of_kept {v : Verdict} (h : v.rejected = false) (text : String)
    (start behind : Database) (trials : List Trial) :
    kept (⟨text, start, v, behind⟩ :: trials) = text :: kept trials := by
  rw [kept, List.filter_cons_of_pos (by simp [h])]
  rfl

theorem tryLines_cons (number : Nat) (text : String) (rest : List String) (db : Database) :
    tryLines number (text :: rest) db =
      (⟨text, db, (runLine number text db).1, (runLine number text db).2⟩ ::
          (tryLines (number + 1) rest (runLine number text db).2).1,
        (tryLines (number + 1) rest (runLine number text db).2).2) := rfl

theorem tryLines_texts (number : Nat) (texts : List String) (db : Database) :
    (tryLines number texts db).1.map Trial.text = texts := by
  induction texts generalizing number db with
  | nil => rfl
  | cons text rest ih =>
    rw [tryLines_cons, List.map_cons, ih]

/-- All lines are regular, and the databases in front of them and behind them are in order. -/
theorem tryLines_orderly {texts : List String} (h : db.Orderly origin n)
    (few : n + texts.length < Word.half64) (number : Nat) :
    (∀ t ∈ (tryLines number texts db).1,
        t.Regular ∧ t.start.Orderly origin (n + texts.length)) ∧
      (tryLines number texts db).2.Orderly origin (n + texts.length) := by
  induction texts generalizing n number db with
  | nil => exact ⟨List.forall_mem_nil _, h⟩
  | cons text rest ih =>
    rw [List.length_cons] at few
    obtain ⟨regular, orderly⟩ := runLine_orderly h (by omega) number text
    obtain ⟨all, last⟩ := ih orderly (by omega) (number + 1)
    have count : n + (text :: rest).length = n + 1 + rest.length := by
      rw [List.length_cons]
      omega
    rw [tryLines_cons, count]
    exact ⟨List.forall_mem_cons.2 ⟨⟨regular, h.mono (by omega)⟩, all⟩, last⟩

/-- Without the lines that are rejected, the others come to what they came to, and the databases
are alike in the end. -/
theorem tryLines_kept {texts : List String} (h : db.Orderly origin n)
    (few : n + texts.length < Word.half64) (alike : Database.Alike origin db db')
    (number number' : Nat) :
    (tryLines number' (kept (tryLines number texts db).1) db').1.map Trial.verdict =
        ((tryLines number texts db).1.map Trial.verdict).filter (fun v => !v.rejected) ∧
      Database.Alike origin (tryLines number texts db).2
        (tryLines number' (kept (tryLines number texts db).1) db').2 := by
  -- Along the one run the database is in order; along both the two databases are alike.
  induction texts generalizing n number number' db db' with
  | nil => exact ⟨rfl, alike⟩
  | cons text rest ih =>
    rw [List.length_cons] at few
    have orderly := (runLine_orderly h (by omega) number text).2
    rw [tryLines_cons, List.map_cons]
    cases rejected : (runLine number text db).1.rejected with
    | true =>
      have alike := runLine_rejected h (by omega) alike rejected
      rw [kept_cons_of_rejected rejected, List.filter_cons_of_neg (by simp [rejected])]
      exact ih orderly (by omega) alike (number + 1) number'
    | false =>
      obtain ⟨same, alike⟩ := runLine_kept alike rejected number'
      obtain ⟨verdicts, last⟩ := ih orderly (by omega) alike (number + 1) (number' + 1)
      rw [kept_cons_of_kept rejected, List.filter_cons_of_pos (by simp [rejected]), tryLines_cons,
        List.map_cons, verdicts, ← same]
      exact ⟨rfl, last⟩

/-- A run of lines that are texts is what its lines come to. -/
theorem runLines_eq {texts : List String}
    (completed : ∀ t ∈ (tryLines number texts db).1, ∀ why, t.verdict ≠ .abandoned why) :
    runLines number (texts.map String.toUTF8) db =
      (.ofVerdicts ((tryLines number texts db).1.map Trial.verdict),
        (tryLines number texts db).2) := by
  induction texts generalizing number db with
  | nil => rfl
  | cons text rest ih =>
    rw [tryLines_cons] at completed ⊢
    obtain ⟨here, others⟩ := List.forall_mem_cons.1 completed
    have rest_run := ih others
    rw [List.map_cons, runLines, Utf8.decode_toUTF8]
    simp only [List.map_cons] at here ⊢
    generalize runLine number text db = first at here rest_run ⊢
    obtain ⟨verdict, left⟩ := first
    cases verdict with
    | abandoned why => exact absurd rfl (here why)
    | skipped | printed | refused =>
      simp only [rest_run]
      rfl

/-- Whatever bytes the lines are, the database behind a run of them is in order. -/
theorem runLines_orderly {ls : List Bytes} (h : db.Orderly origin n)
    (few : n + ls.length < Word.half64) (number : Nat) :
    (runLines number ls db).2.Orderly origin (n + ls.length) := by
  induction ls generalizing n number db with
  | nil => exact h
  | cons line rest ih =>
    rw [List.length_cons] at few ⊢
    rw [runLines]
    cases Utf8.decode line with
    | error fault => exact h.mono (by omega)
    | ok text =>
      obtain ⟨regular, orderly⟩ := runLine_orderly h (by omega) number text
      have last := ih orderly (by omega) (number + 1)
      rw [show n + 1 + rest.length = n + (rest.length + 1) by omega] at last
      have completed := regular.completed
      simp only at completed ⊢
      generalize runLine number text db = first at completed last ⊢
      obtain ⟨verdict, left⟩ := first
      cases verdict with
      | abandoned why => exact absurd rfl (completed why)
      | skipped | printed | refused => exact last

/-! ### Bytes of lines -/

/-- Lines put together, each with a line feed behind it. -/
def unlines (ls : List Bytes) : Bytes :=
  ⟨(([10] : List UInt8).intercalate (ls.map (fun l => l.data.toList) ++ [[]])).toArray⟩

theorem lines_unlines {ls : List Bytes} (plain : ∀ l ∈ ls, (10 : UInt8) ∉ l.data.toList) :
    lines (unlines ls) = ls := by
  -- Behind the last line feed there is one more piece, which is empty.
  have pieces : (([10] : List UInt8).intercalate
      (ls.map (fun l => l.data.toList) ++ [[]])).splitOn 10 =
        ls.map (fun l => l.data.toList) ++ [[]] := by
    refine List.splitOn_intercalate 10 ?_ (by simp)
    simpa [or_imp, forall_and] using plain
  unfold lines unlines
  simp only [pieces, List.getLast?_append, List.getLast?_singleton, Option.some_or, if_true,
    List.dropLast_concat, List.map_map]
  exact List.map_id'' (fun _ => rfl) ls

/-- No piece of a split has the separator in it. -/
theorem not_mem_of_mem_splitOn {separator : UInt8} {l piece : List UInt8}
    (h : piece ∈ l.splitOn separator) : separator ∉ piece := by
  -- The first piece ends at the first separator, and the others are those of a shorter list.
  induction length : l.length using Nat.strong_induction_on generalizing l with
  | _ m shorter =>
    by_cases there : separator ∈ l
    · obtain ⟨before, after, rfl, first⟩ := List.eq_append_cons_of_mem there
      rw [List.splitOn_append_cons_self, List.splitOn_eq_singleton first, List.mem_append,
        List.mem_singleton] at h
      rcases h with rfl | h
      · exact first
      · rw [List.length_append, List.length_cons] at length
        exact shorter after.length (by omega) h rfl
    · rw [List.splitOn_eq_singleton there, List.mem_singleton] at h
      rwa [h]

/-- No line has a line feed in it. -/
theorem not_mem_of_mem_lines {input line : Bytes} (h : line ∈ lines input) :
    (10 : UInt8) ∉ line.data.toList := by
  unfold lines at h
  obtain ⟨piece, within, rfl⟩ := List.mem_map.1 h
  have split : piece ∈ input.data.toList.splitOn 10 := by
    split at within
    · exact List.mem_of_mem_dropLast within
    · exact within
  exact not_mem_of_mem_splitOn split

/-! ### Processes -/

/-- The number of lines of a process, or one for its command. -/
def Invocation.length (i : Invocation) (input : Bytes) : Nat :=
  match i.command with
  | none => (lines input).length
  | some _ => 1

/-- Contents that processes have produced from nothing, one after the other, with that many lines
and commands in all. -/
inductive Produced : Nat → Contents → Prop where
  | start : Produced 0 fun _ => none
  | run {n : Nat} {words : List String} {i : Invocation} {disk : Disk} {db : Database}
      (h : Produced n db.contents) (read : Invocation.read words = .ok i) (sound : disk.Sound)
      (quiet : disk.Quiet) (opened : i.opening.run disk = .ok db) (input : Bytes) :
      Produced (n + i.length input) (i.runOn input db).2.contents

variable {words : List String} {i : Invocation} {input : Bytes} {disk : Disk} {c : Contents}
  {log : LogStore}

/-- A process leaves its database in order. -/
theorem runOn_orderly (h : db.Orderly origin n) (read : Invocation.read words = .ok i)
    (few : n + i.length input < Word.half64) :
    (i.runOn input db).2.Orderly origin (n + i.length input) := by
  unfold Invocation.length at few ⊢
  unfold Invocation.runOn
  cases command : i.command with
  | none =>
    rw [command] at few
    exact runLines_orderly h few 1
  | some asked =>
    rw [command] at few
    cases asked with
    | error fault => exact h.mono (Nat.le_succ n)
    | ok a =>
      have orderly := (h.attempt few (Action.Spelled.process read command).sound).2
      simp only [runAction_eq]
      exact orderly

/-- A new directory is opened with contents that no process was needed for. -/
theorem produced_in_new_directory :
    ∃ (db : Database) (log : LogStore), ({ path := some ⟨"db"⟩ } : Opening).run {} = .ok db ∧
      db.fields.store = .log log ∧ db.contents = (fun _ => none) ∧ Produced 0 db.contents := by
  obtain ⟨db, d, log, opened, stored, nothing, -⟩ := Opening.run_in_new_directory
  have empty : db.contents = fun _ => none := Backend.contents_of_size_eq_zero nothing
  refine ⟨db, ⟨d, log⟩, opened, stored, empty, ?_⟩
  rw [empty]
  exact .start

/-- What processes have produced is as some catalog has it. -/
theorem Produced.holds (h : Produced n c) (few : n < Word.half64) :
    ∃ k : Catalog, k.HoldsIn n c := by
  induction h with
  | start => exact ⟨_, Catalog.holdsIn_empty⟩
  | run _ read sound quiet opened input ih =>
    have start := Database.orderly_of_shows (Database.shows_of_opened sound quiet opened)
      (ih (by omega))
    exact (runOn_orderly start read few).holds

/-- A database with contents that processes have produced is in order. -/
theorem Produced.orderly (h : Produced n db.contents) (few : n < Word.half64) (sound : disk.Sound)
    (quiet : disk.Quiet) {o : Opening} (opened : o.run disk = .ok db) :
    db.Orderly db.fields.store n :=
  Database.orderly_of_shows (Database.shows_of_opened sound quiet opened) (h.holds few)

/-- Behind a process the database is opened again with what it has produced. -/
theorem Produced.run_again (h : Produced n db.contents) (read : Invocation.read words = .ok i)
    (sound : disk.Sound) (quiet : disk.Quiet) (opened : i.opening.run disk = .ok db)
    (stored : db.fields.store = .log log) (few : n + i.length input < 2 ^ 63) {o : Opening}
    (follows : o.Follows log) :
    ∃ db', o.run (i.run input disk).2 = .ok db' ∧
      Produced (n + i.length input) db'.contents := by
  have room : n + i.length input < Word.half64 := few
  have start := h.orderly (by omega) sound quiet opened
  have last := (runOn_orderly start read room).shows
  rw [stored] at last
  obtain ⟨s, later, contents, finished⟩ := finish_shows last (i.runOn input db).1
  have calm := (Opening.run_shows sound quiet opened stored).1.1
  obtain ⟨db', opened', shows_again⟩ := Opening.run_again follows calm later
  have run : (i.run input disk).2 = s.release := by
    unfold Invocation.run
    simp only [opened, finished]
  refine ⟨db', by rwa [run], ?_⟩
  have same : db'.contents = (i.runOn input db).2.contents := shows_again.contents.trans contents
  rw [same]
  exact .run h read sound quiet opened input

/-- Closing the database adds nothing to what a run has come to. -/
theorem finish_eq (h : db.Shows origin c) {t : Transcript} (going : t.abandoned = none) :
    Invocation.finish t db = (t, db.close.2) := by
  obtain ⟨db', flushed, -⟩ := Database.flush_shows h
  unfold Invocation.finish Database.close
  rw [going]
  simp only [Option.isSome_none, Bool.false_eq_true, if_false, flushed]

/-- A process that reads lines of text comes to what its lines come to. -/
theorem run_lines {texts : List String} (h : db.Orderly origin n)
    (few : n + texts.length < Word.half64) (piped : i.command = none)
    (opened : i.opening.run disk = .ok db) (decoded : lines input = texts.map String.toUTF8) :
    i.runOn input db = (.ofVerdicts ((tryLines 1 texts db).1.map Trial.verdict),
        (tryLines 1 texts db).2) ∧
      i.run input disk = (.ofVerdicts ((tryLines 1 texts db).1.map Trial.verdict),
        (tryLines 1 texts db).2.close.2) := by
  obtain ⟨tried, last⟩ := tryLines_orderly h few 1
  have ran : i.runOn input db = (.ofVerdicts ((tryLines 1 texts db).1.map Trial.verdict),
      (tryLines 1 texts db).2) := by
    unfold Invocation.runOn runInput
    rw [piped, decoded]
    exact runLines_eq fun t ht => (tried t ht).1.completed
  have going : (Transcript.ofVerdicts
      ((tryLines 1 texts db).1.map Trial.verdict)).abandoned = none := by
    refine Transcript.abandoned_ofVerdicts ?_
    intro v hv
    obtain ⟨t, ht, rfl⟩ := List.mem_map.1 hv
    exact (tried t ht).1.completed
  refine ⟨ran, ?_⟩
  unfold Invocation.run
  simp only [opened, ran]
  exact finish_eq last.shows going

/-- Lines of text are read by a process, on a database with contents that processes have produced.
Every line that is not blank and no comment is tried in order, and the exit code is 0 exactly if no
line has failed. Those that fail are rejected for their words, their values or their orders, or are
cut short by a record that is too long for the log and keep what they wrote before it. Compactions
fail only if their side file could not be built at the start. The lines that are rejected may be
deleted: what is printed, what the database holds in the end and the disk are the same. -/
theorem rejected_lines_leave_no_trace {texts : List String} (piped : i.command = none)
    (sound : disk.Sound) (quiet : disk.Quiet) (opened : i.opening.run disk = .ok db)
    (produced : Produced n db.contents) (decoded : lines input = texts.map String.toUTF8)
    (few : n + texts.length < 2 ^ 63) :
    ∃ trials last, tryLines 1 texts db = (trials, last) ∧ trials.map Trial.text = texts ∧
      i.runOn input db = (.ofVerdicts (trials.map Trial.verdict), last) ∧
      (∀ t ∈ trials, t.Regular) ∧ (db.SideFree → ∀ t ∈ trials, t.start.SideFree) ∧
      ((i.run input disk).1.exitCode = 0 ↔ ∀ t ∈ trials, t.verdict.failed = false) ∧
      (∃ rest, lines rest = (kept trials).map String.toUTF8) ∧
      ∀ rest, lines rest = (kept trials).map String.toUTF8 →
        (i.run rest disk).1.printed = (i.run input disk).1.printed ∧
        (i.runOn rest db).2.contents = (i.runOn input db).2.contents ∧
        (i.run rest disk).2 = (i.run input disk).2 := by
  have room : n + texts.length < Word.half64 := few
  have start := produced.orderly (by omega) sound quiet opened
  have orderly := (tryLines_orderly start room 1).1
  obtain ⟨ran, run⟩ := run_lines start room piped opened decoded
  obtain ⟨verdicts, alike⟩ := tryLines_kept start room start.shows.alike 1 1
  have same_texts := tryLines_texts 1 texts db
  generalize tryLines 1 texts db = tried at *
  obtain ⟨trials, final⟩ := tried
  have within : ∀ text ∈ kept trials, text ∈ texts := by
    intro text there
    obtain ⟨t, ht, rfl⟩ := List.mem_map.1 there
    rw [← same_texts]
    exact List.mem_map_of_mem (List.mem_of_mem_filter ht)
  -- What is kept of the input is lines of it, so they can be put together again.
  refine ⟨trials, final, rfl, same_texts, ran, fun t ht => (orderly t ht).1,
    fun free t ht => (orderly t ht).2.sideFree free, ?_, ?_, ?_⟩
  · rw [run, Transcript.exitCode_ofVerdicts, List.forall_mem_map]
  · refine ⟨unlines ((kept trials).map String.toUTF8), lines_unlines ?_⟩
    intro line there
    obtain ⟨text, ht, rfl⟩ := List.mem_map.1 there
    have of_input : text.toUTF8 ∈ lines input := by
      rw [decoded]
      exact List.mem_map_of_mem (within text ht)
    exact not_mem_of_mem_lines of_input
  · intro rest lines_rest
    have fewer : (kept trials).length ≤ texts.length := by
      rw [← same_texts, kept, List.length_map, List.length_map]
      exact List.length_filter_le _ _
    obtain ⟨ran', run'⟩ := run_lines start (by omega) piped opened lines_rest
    rw [run, run', ran, ran', verdicts]
    refine ⟨?_, alike.contents_eq.symm, ?_⟩
    · unfold Transcript.printed
      rw [Transcript.outputs_ofVerdicts_filter]
      intro v t rejected
      cases v with
      | refused why => rfl
      | skipped | printed | abandoned => cases rejected
    · rw [alike.close_eq]

/-- In a new directory: a quote that is left open and a tree command without a key are rejected, and
an entry is set. Without the first two lines the entry is set just so. -/
theorem two_rejected_lines_deleted :
    ∃ (i : Invocation) (db : Database) (input rest : Bytes),
      Invocation.read ["--db", "db"] = .ok i ∧ i.opening.run {} = .ok db ∧
      lines input = ["map set \"a b", "tree insert 1 x", "map set a b"].map String.toUTF8 ∧
      lines rest = ["map set a b"].map String.toUTF8 ∧
      (i.run input {}).1.exitCode ≠ 0 ∧
      (i.run rest {}).1.printed = (i.run input {}).1.printed ∧
      (i.run rest {}).2 = (i.run input {}).2 := by
  have quiet : Disk.Quiet {} := ⟨rfl, rfl⟩
  obtain ⟨db, log, opened, -, -, produced⟩ := produced_in_new_directory
  have shows_start := Database.shows_of_opened Disk.sound_empty quiet opened
  have sets : Asks "map set a b" (.request (.mapSet "a" "b")) :=
    ⟨["map", "set", "a", "b"], by cbv, by cbv⟩
  have fits : db.Takes (.request (.mapSet "a" "b")) := by
    refine Or.inr ?_
    intro w hw
    rw [List.mem_singleton.1 hw]
    constructor <;> decide
  have done : (db.attempt (.request (.mapSet "a" "b"))).1 = .ok .ok :=
    (Database.attempt_request shows_start fits).1
  have first : runLine 1 "map set \"a b" db = (.refused (.unbalanced 1), db) :=
    runLine_unbalanced (by cbv) (by cbv) 1 db
  have second : runLine 2 "tree insert 1 x" db = (.refused (.usage 2), db) :=
    runLine_usage (by cbv) (by cbv) (by cbv) 2 db
  have third : (runLine 3 "map set a b" db).1 = .printed .ok := by
    rw [sets.run (by cbv), runAction_eq, done]
    rfl
  have whole : lines (unlines (["map set \"a b", "tree insert 1 x", "map set a b"].map
      String.toUTF8)) = ["map set \"a b", "tree insert 1 x", "map set a b"].map String.toUTF8 :=
    lines_unlines (by decide)
  have single : lines (unlines (["map set a b"].map String.toUTF8)) =
      ["map set a b"].map String.toUTF8 := lines_unlines (by decide)
  obtain ⟨trials, last, tried, -, -, -, -, code, -, same⟩ :=
    rejected_lines_leave_no_trace (i := ⟨{ path := some ⟨"db"⟩ }, none⟩) rfl Disk.sound_empty quiet
      opened produced whole (by decide)
  rw [tryLines_cons, first, tryLines_cons, second, tryLines_cons, third] at tried
  cases tried
  obtain ⟨printed, -, disk⟩ := same _ single
  refine ⟨_, db, _, _, by cbv, opened, whole, single, ?_, printed, disk⟩
  intro zero
  have failed := code.1 zero _ List.mem_cons_self
  cases failed

end FlatStore.Console
