import FlatStore.Proofs.Console

/-! # What a failed insert leaves behind

    Nothing is taken back when a request is cut short. The first insert into a
    namespace records its orders before anything else, so they stay recorded
    even if its payload turns out to be too long for the log
    (`Database.attempt_insert_oversized`).

    A line with such an insert fails, and yet it cannot be deleted without a
    trace (`oversized_insert_leaves_orders`).
-/

namespace FlatStore

variable {c : Contents} {n : Nat} {ns : FileId} {requested : Option (List KeyOrder)}
  {key : List String} {data : String}

/-! ### What an insert writes -/

/-- What a script writes at first is among its writes. -/
theorem Script.mem_writes_bind {α β : Type} {s : Script α} {w : String × String}
    (h : w ∈ s.writes c) (f : α → Script β) : w ∈ (s >>= f).writes c := by
  rw [writes_bind]
  exact List.mem_append_left _ h

namespace Tree

variable {t : Tree} {lost free : List NodeId} {b : Branch} {d : Dictionary} {high arity : Nat}

/-- An insert writes its payload as it is. -/
theorem StoredBeside.mem_writes_insert (h : StoredBeside t c lost b d free high)
    (arity : key.length = t.arity) (room : high + 1 < Word.size64) (data : String) :
    ∃ field, (field, data) ∈ (t.insert key data).writes c := by
  obtain ⟨place, placed, located⟩ := h.run_place arity (by rw [walkBound]; omega)
  rw [insert, ((asking t.ns).checkKey key).writes_bind_ok (run_checkKey c arity),
    ((asking t.ns).place key).writes_bind_ok placed]
  cases located with
  | found hit => exact ⟨_, List.mem_singleton_self _⟩
  | @missing p pre post miss =>
    obtain ⟨leaf, free', high', c₁, c₂, issued, -⟩ := h.run_prepare data miss room
    have made : ((Key.node t.ns leaf .data).text, data) ∈
        (t.makeLeaf key data p.parent).writes c := by
      rw [makeLeaf, Script.writes_bind_ok issued]
      refine List.mem_append_right _ (Script.mem_writes_bind ?_ _)
      exact List.mem_cons_of_mem _ (List.mem_cons_of_mem _ List.mem_cons_self)
    refine ⟨(Key.node t.ns leaf .data).text, ?_⟩
    cases p with
    | nil =>
      simp only [Trail.place, insertRoot_eq]
      exact Script.mem_writes_bind made _
    | cons turn p =>
      simp only [Trail.place, insertBelow_eq]
      exact Script.mem_writes_bind made _

end Tree

/-- An insert that is not refused writes its payload as it is. -/
theorem Catalog.HoldsIn.mem_writes_insert {k : Catalog} (h : k.HoldsIn n c)
    (few : n + 1 < Word.size64) (sound : (Request.treeInsert ns requested key data).Sound)
    (accepted : ¬ k.Refuses (.treeInsert ns requested key data)) :
    ∃ field, (field, data) ∈ (Request.treeInsert ns requested key data).script.writes c := by
  obtain ⟨t, c₁, run, tree, -⟩ := h.opened sound accepted rfl true
  obtain ⟨lost, b, free, high, stored, bound⟩ := tree.tree
  obtain ⟨field, written⟩ := stored.mem_writes_insert
    (tree.arity_eq (List.length_pos_iff.2 sound.2.1)) (by omega) data
  refine ⟨field, ?_⟩
  have script : (Request.treeInsert ns requested key data).script =
      Tree.openFor ns requested key.length true >>= fun t =>
        (fun _ => Output.ok) <$> t.insert key data := rfl
  rw [script, Script.writes_bind_ok run, Script.writes_map]
  exact List.mem_append_right _ written

/-! ### On a log -/

/-- On a log the first insert into a namespace fails if its payload is too long, and leaves orders
recorded. -/
theorem Database.attempt_insert_oversized {log : LogStore} {db : Database}
    (h : db.Orderly (.log log) n) (few : n + 1 < Word.half64)
    (sound : (Request.treeInsert ns requested key data).Sound)
    (absent : (Tree.recordedOrders ns).run db.contents = .ok none db.contents)
    (long : Record.maxLength < data.toUTF8.size)
    (fits : (Tree.ordersRecord ns (Tree.ordersFor requested key.length)).Fits) :
    (∃ detail, (db.attempt (.request (.treeInsert ns requested key data))).1 =
        .error (.error (.serialization detail))) ∧
      (Tree.recordedOrders ns).run
          (db.attempt (.request (.treeInsert ns requested key data))).2.contents =
        .ok (some (Tree.ordersFor requested key.length))
          (db.attempt (.request (.treeInsert ns requested key data))).2.contents := by
  obtain ⟨k, holds⟩ := h.holds
  have later : (Backend.log log).Later db.fields.store := h.shows.sound
  have word : Word.half64 < Word.size64 := by decide
  have accepted : ¬ k.Refuses (.treeInsert ns requested key data) :=
    Catalog.not_refuses_of_none (holds.absent_of_run absent) rfl
  have refused : ¬ db.Takes (.request (.treeInsert ns requested key data)) := by
    rintro (ephemeral | fit)
    · rw [isEphemeral, location, later.isNone_location?] at ephemeral
      cases ephemeral
    · obtain ⟨field, payload⟩ := holds.mem_writes_insert (by omega) sound accepted
      exact absurd (fit _ payload).2 (Nat.not_le.2 long)
  obtain ⟨outcome, cut, -⟩ := h.attempt_cut few sound refused
  exact ⟨outcome, cut.orders rfl absent fits⟩

/-! ### A line with a long payload -/

theorem Text.trim_eq_self {s : String} {c d : Char} {middle : List Char}
    (shape : s.toList = c :: (middle ++ [d])) (first : isBlank c = false)
    (last : isBlank d = false) : trim s = s := by
  have front : s.toList.dropWhile isBlank = s.toList := by
    rw [shape, List.dropWhile_cons_of_neg (by simp [first])]
  have back : s.toList.reverse.dropWhile isBlank = s.toList.reverse := by
    rw [shape, List.reverse_cons, List.reverse_append, List.reverse_singleton,
      List.singleton_append, List.cons_append, List.dropWhile_cons_of_neg (by simp [last])]
  rw [trim, front, back, List.reverse_reverse, String.ofList_toList]

/-- A word without quotes and backslashes ends at the next blank. -/
theorem Words.wordsFrom_word {cs : List Char} (plain : ∀ c ∈ cs, isSeparator c = false ∧
    ∀ text, Place.inWord text c = .word (c :: text)) (text rest : List Char) :
    wordsFrom (.word text) (cs ++ ' ' :: rest) =
      (wordsFrom .between rest).map (String.ofList (text.reverse ++ cs) :: ·) := by
  induction cs generalizing text with
  | nil =>
    rw [List.append_nil]
    rfl
  | cons c cs ih =>
    obtain ⟨⟨inside, unquoted⟩, others⟩ := List.forall_mem_cons.1 plain
    have step : wordsFrom (.word text) (c :: (cs ++ ' ' :: rest)) =
        wordsFrom (.word (c :: text)) (cs ++ ' ' :: rest) := by
      simp [wordsFrom, Place.ended, Place.next, inside, unquoted]
    rw [List.cons_append, step, ih others]
    simp

namespace Console

/-- The line that inserts a payload of that many letters under a key. -/
def longInsert (n : Nat) : String :=
  "tree insert 1 " ++ String.ofList (List.replicate n 'x') ++ " k"

theorem longInsert_toList (n : Nat) :
    (longInsert n).toList =
      ['t', 'r', 'e', 'e', ' ', 'i', 'n', 's', 'e', 'r', 't', ' ', '1', ' '] ++
        (List.replicate n 'x' ++ [' ', 'k']) := by
  have before : "tree insert 1 ".toList =
      ['t', 'r', 'e', 'e', ' ', 'i', 'n', 's', 'e', 'r', 't', ' ', '1', ' '] := by decide
  have behind : " k".toList = [' ', 'k'] := by decide
  rw [longInsert, String.toList_append, String.toList_append, before, behind, String.toList_ofList,
    List.append_assoc]

theorem trim_longInsert (n : Nat) : Text.trim (longInsert n) = longInsert n := by
  have shape : (longInsert n).toList =
      't' :: (['r', 'e', 'e', ' ', 'i', 'n', 's', 'e', 'r', 't', ' ', '1', ' '] ++
        (List.replicate n 'x' ++ [' ']) ++ ['k']) := by
    rw [longInsert_toList]
    simp
  exact Text.trim_eq_self shape rfl rfl

/-- The line stands for the insert that it spells. -/
theorem asks_longInsert (n : Nat) : Asks (longInsert (n + 1))
    (.request (.treeInsert 1 none ["k"] (String.ofList (List.replicate (n + 1) 'x')))) := by
  have plain : Command.look (String.ofList (List.replicate (n + 1) 'x')) = .plain := by
    unfold Command.look
    rw [String.toList_ofList]
    rfl
  have letters : ∀ c ∈ List.replicate n 'x', Words.isSeparator c = false ∧
      ∀ text, Words.Place.inWord text c = .word (c :: text) := by
    intro c hc
    rw [List.eq_of_mem_replicate hc]
    exact ⟨rfl, fun _ => rfl⟩
  refine ⟨["tree", "insert", "1", String.ofList (List.replicate (n + 1) 'x'), "k"], ?_,
    Command.readLine_treeInsert plain⟩
  rw [trim_longInsert, Words.split, longInsert_toList]
  -- The words before the payload are cut off one by one, and a letter of it begins the next word.
  show (((Words.wordsFrom (.word ['x'])
    (List.replicate n 'x' ++ [' ', 'k'])).map _).map _).map _ = _
  rw [Words.wordsFrom_word letters]
  rfl

theorem isIdle_longInsert (n : Nat) : isIdle (Text.trim (longInsert n)) = false := by
  have head : (longInsert n).toList.head? = some 't' := by
    rw [longInsert_toList]
    rfl
  have some_text : (longInsert n).isEmpty = false := by
    rw [Bool.eq_false_iff, ne_eq, String.isEmpty_iff]
    intro nothing
    rw [nothing] at head
    cases head
  rw [trim_longInsert, isIdle, some_text, head]
  rfl

/-- The line has no line feed in it. -/
theorem lines_longInsert (n : Nat) :
    lines (unlines [(longInsert n).toUTF8]) = [(longInsert n).toUTF8] := by
  refine lines_unlines ?_
  intro line there
  rw [List.mem_singleton.1 there, ← String.ofList_toList (s := longInsert n), longInsert_toList]
  refine Utf8.not_mem_toUTF8 ?_
  simp only [List.forall_mem_append, List.mem_cons, List.not_mem_nil, forall_eq_or_imp, or_false,
    forall_eq]
  refine ⟨by decide, fun c hc => ?_, by decide⟩
  rw [List.eq_of_mem_replicate hc]
  decide

/-- In a new directory: the only line inserts a payload of one byte more than the limit. It fails,
but without it the contents are not the same in the end: they have no orders. -/
theorem oversized_insert_leaves_orders :
    ∃ (i : Invocation) (db : Database) (input : Bytes) (detail : String),
      Invocation.read ["--db", "db"] = .ok i ∧ i.command = none ∧ Disk.Sound {} ∧ Disk.Quiet {} ∧
      i.opening.run {} = .ok db ∧ Produced 0 db.contents ∧
      lines input = [(longInsert 67108865).toUTF8] ∧
      (i.run input {}).1 = .ofVerdict (.refused (.error (.serialization detail))) ∧
      lines .empty = [] ∧
      (i.runOn .empty db).2.contents ≠ (i.runOn input db).2.contents := by
  have quiet : Disk.Quiet {} := ⟨rfl, rfl⟩
  obtain ⟨db, log, opened, stored, empty, produced⟩ := produced_in_new_directory
  have orderly := produced.orderly (by decide) Disk.sound_empty quiet opened
  rw [stored] at orderly
  have long : Record.maxLength < (String.ofList (List.replicate 67108865 'x')).toUTF8.size := by
    have length := Utf8.length_le_size_toUTF8 (List.replicate 67108865 'x')
    rw [List.length_replicate] at length
    exact length
  have asks := asks_longInsert 67108864
  have absent : (Tree.recordedOrders 1).run db.contents = .ok none db.contents := by
    rw [empty]
    rfl
  obtain ⟨⟨detail, outcome⟩, recorded⟩ := Database.attempt_insert_oversized orderly (by decide)
    asks.sound absent long (by constructor <;> decide)
  generalize behind : (db.attempt (.request (.treeInsert 1 none ["k"]
    (String.ofList (List.replicate 67108865 'x'))))).2 = left at recorded
  have tried : tryLines 1 [longInsert 67108865] db =
      ([⟨longInsert 67108865, db, .refused (.error (.serialization detail)), left⟩], left) := by
    rw [tryLines_cons, asks.run (isIdle_longInsert _), runAction_eq, outcome, behind]
    rfl
  have few : 0 + [longInsert 67108865].length < Word.half64 := by decide
  obtain ⟨ran, run⟩ := run_lines (i := ⟨{ path := some ⟨"db"⟩ }, none⟩) orderly few rfl opened
    (lines_longInsert 67108865)
  rw [tried] at ran run
  refine ⟨⟨{ path := some ⟨"db"⟩ }, none⟩, db, unlines [(longInsert 67108865).toUTF8], detail,
    by cbv, rfl, Disk.sound_empty, quiet, opened, produced, lines_longInsert _, ?_, rfl, ?_⟩
  · rw [run]
    rfl
  · rw [ran]
    intro same
    have unchanged : db.contents = left.contents := same
    rw [← unchanged, absent] at recorded
    cases recorded

end Console

end FlatStore
