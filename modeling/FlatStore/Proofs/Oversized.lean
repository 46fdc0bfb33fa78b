import FlatStore.Proofs.Catalog
import FlatStore.Proofs.Database.Opening
import FlatStore.Proofs.Tree.Brevity
import FlatStore.Proofs.Tree.Commit

/-! # Records that are too long

    A log refuses a record whose key or value is above the limit, and stays as it
    is. The script that the record belongs to ends there, behind the writes that
    it made before.

    * **Scripts** end on a log as they do on the contents, or in front of the
      first record that is too long (`Script.CutAt`, `perform_on_log`).
    * **Inserts** are cut short while their leaf is made ready, so the tree is
      what it was, beside one more lost id at most (`StoredBeside.cut_insert`).
      The orders of the first insert into a namespace are written before, so
      they stay recorded (`HoldsIn.cut_insert`).
    * **Requests**: whatever it was that was cut short, the fields are as some
      catalog has them (`HoldsIn.cut_short`).
-/

namespace FlatStore

/-! ### Writes up to one that is too long -/

/-- All that was written is within the limit. -/
theorem Contents.Short.putAll {c : Contents} (h : c.Short) {writes : List (String × String)}
    (fit : ∀ w ∈ writes, Record.Fits ⟨w.1.toUTF8, w.2.toUTF8⟩) : (c.putAll writes).Short := by
  induction writes generalizing c with
  | nil => exact h
  | cons w writes ih =>
    obtain ⟨here, rest⟩ := List.forall_mem_cons.1 fit
    exact ih (h.put w.1 here.2) rest

namespace Script

variable {α β : Type} {s : Script α} {c c₁ : Contents} {first : List (String × String)}

/-- The first of the writes of a script are within the limits, and the next one is not. -/
def CutAt (s : Script α) (c : Contents) (first : List (String × String)) : Prop :=
  ∃ w rest, s.writes c = first ++ w :: rest ∧
    (∀ v ∈ first, Record.Fits ⟨v.1.toUTF8, v.2.toUTF8⟩) ∧
    ¬ Record.Fits ⟨w.1.toUTF8, w.2.toUTF8⟩

namespace CutAt

theorem length_lt (h : s.CutAt c first) : first.length < (s.writes c).length := by
  obtain ⟨w, rest, writes, -⟩ := h
  rw [writes, List.length_append, List.length_cons]
  omega

theorem isPrefix (h : s.CutAt c first) : first <+: s.writes c := by
  obtain ⟨w, rest, writes, -⟩ := h
  rw [writes]
  exact List.prefix_append first _

/-- A single write is cut short before it. -/
theorem eq_nil (h : s.CutAt c first) (single : (s.writes c).length ≤ 1) : first = [] := by
  have := h.length_lt
  exact List.eq_nil_of_length_eq_zero (by omega)

theorem fits (h : s.CutAt c first) :
    ∀ v ∈ first, Record.Fits ⟨v.1.toUTF8, v.2.toUTF8⟩ := by
  obtain ⟨w, rest, -, fit, -⟩ := h
  exact fit

theorem not_fits (h : s.CutAt c first) :
    ¬ ∀ w ∈ s.writes c, Record.Fits ⟨w.1.toUTF8, w.2.toUTF8⟩ := by
  obtain ⟨w, rest, writes, -, long⟩ := h
  exact fun fit => long (fit w (by simp [writes]))

/-- Two scripts in a row are cut short in the first one, or in the second one behind all writes of
the first. -/
theorem of_bind {f : α → Script β} {a : α} (run : s.run c = .ok a c₁)
    (h : (s >>= f).CutAt c first) :
    s.CutAt c first ∨ ∃ more, first = s.writes c ++ more ∧ (f a).CutAt c₁ more := by
  obtain ⟨w, rest, writes, fit, long⟩ := h
  rw [writes_bind_ok run] at writes
  rcases List.append_eq_append_iff.1 writes with ⟨more, eq, split⟩ | ⟨more, eq, split⟩
  · refine Or.inr ⟨more, eq, w, rest, split, ?_, long⟩
    exact fun v hv => fit v (eq ▸ List.mem_append_right _ hv)
  · cases more with
    | nil =>
      rw [List.append_nil] at eq
      refine Or.inr ⟨[], by simp [eq], w, rest, by simpa using split.symm, by simp, long⟩
    | cons v more =>
      cases split
      exact Or.inl ⟨w, more, eq, fit, long⟩

/-- A script that only asks is not cut short. -/
theorem of_asks_bind {S : Structure} (asks : s.Asks S) {f : α → Script β} {a : α}
    (run : s.run c = .ok a c) (h : (s >>= f).CutAt c first) : (f a).CutAt c first := by
  unfold CutAt at h ⊢
  rwa [asks.writes_bind_ok run] at h

/-- Nor is a brief one. -/
theorem of_bind_brief {f : α → Script β} {a : α} {Q : β → Prop} (run : s.run c = .ok a c₁)
    (brief : (f a).Brief Q) (short : c.Short) (h : (s >>= f).CutAt c first) :
    s.CutAt c first := by
  rcases h.of_bind run with here | ⟨more, rfl, behind⟩
  · exact here
  · have fit := h.fits
    have left : c.putAll (s.writes c) = c₁ := by
      rw [← left_eq_putAll, run]
      rfl
    have short₁ : c₁.Short := by
      rw [← left]
      exact short.putAll fun v hv => fit v (List.mem_append_left _ hv)
    exact absurd (brief.fits short₁) behind.not_fits

end CutAt

end Script

/-! ### Scripts on a log -/

namespace FieldStore

variable {α : Type} {f : FieldStore Backend} {c : Contents} {log : LogStore}

/-- A write that is too long is refused, and nothing changes. -/
theorem put_oversized (h : Shows (Backend.view (.log log)) f c) {key value : String}
    (long : ¬ Record.Fits ⟨key.toUTF8, value.toUTF8⟩) :
    ∃ detail, put key value f = .error (.serialization detail) f := by
  have later : (Backend.log log).Later f.store := h.sound
  cases stored : f.store with
  | memory store disk =>
    rw [stored] at later
    cases later
  | log s =>
    obtain ⟨detail, refused⟩ := LogStore.write_oversized (s := s) long
    have write : ByteStore.write key.toUTF8 value.toUTF8 f.store =
        .error (.serialization detail) f.store := by
      rw [stored]
      exact Backend.use_log_of_error refused
    refine ⟨detail, ?_⟩
    unfold put
    rw [write]

/-- On a log a script ends as it does on the contents, unless it is cut short by a record that is
too long. -/
theorem perform_on_log (h : Shows (Backend.view (.log log)) f c) (s : Script α) :
    (∀ w ∈ s.writes c, Record.Fits ⟨w.1.toUTF8, w.2.toUTF8⟩) ∨
      ∃ first detail f', s.CutAt c first ∧
        perform s f = .error (.error (.serialization detail)) f' ∧
        Shows (Backend.view (.log log)) f' (c.putAll first) := by
  induction s generalizing f c with
  | done | fail => exact Or.inl (List.forall_mem_nil _)
  | read key next ih =>
    obtain ⟨f₁, shows₁, read⟩ := get_shows h key
    cases found : c.read key with
    | error e =>
      refine Or.inl ?_
      rw [Script.writes, found]
      exact List.forall_mem_nil _
    | ok value =>
      have writes : (Script.read key next).writes c = (next value).writes c := by
        rw [Script.writes, found]
      unfold Script.CutAt
      simp only [perform, read, found, writes]
      exact ih value shows₁
  | write key value next ih =>
    by_cases fits : Record.Fits ⟨key.toUTF8, value.toUTF8⟩
    · have put : ∃ f₁, Shows (Backend.view (.log log)) f₁ (c.put key value) ∧
          put key value f = .ok () f₁ := put_shows h fits
      obtain ⟨f₁, shows₁, written⟩ := put
      simp only [perform, written]
      rcases ih shows₁ with all | ⟨first, detail, f', cut, performed, shows'⟩
      · exact Or.inl (List.forall_mem_cons.2 ⟨fits, all⟩)
      · obtain ⟨w, rest, writes, within, long⟩ := cut
        refine Or.inr ⟨(key, value) :: first, detail, f', ⟨w, rest, ?_, ?_, long⟩, performed,
          shows'⟩
        · rw [Script.writes, writes, List.cons_append]
        · exact List.forall_mem_cons.2 ⟨fits, within⟩
    · obtain ⟨detail, refused⟩ := put_oversized h fits
      refine Or.inr ⟨[], detail, f, ⟨(key, value), _, rfl, List.forall_mem_nil _, fits⟩, ?_, h⟩
      simp only [perform, refused]

end FieldStore

/-- What a log holds was written to it, so it is within the limits. -/
theorem Backend.Later.short {log : LogStore} {b : Backend} (h : (Backend.log log).Later b) :
    b.contents.Short := by
  cases h with
  | @log _ s later =>
    obtain ⟨records, intact⟩ := later.intact
    intro key value held
    have indexed : s.log.index[key]? = some value := held
    rw [intact.index.getElem?_eq] at indexed
    exact (intact.fits _ (LogIndex.mem_of_getElem? indexed)).2

/-! ### Inserts -/

namespace Tree

variable {t : Tree} {c : Contents} {lost free : List NodeId} {b : Branch} {d : Dictionary}
  {high : Nat} {key : List String} {first : List (String × String)}

/-- Make a leaf ready, which is then linked. -/
def makeLeaf (t : Tree) (key : List String) (data : String) (parent : Link) : Script NodeId := do
  let leaf ← IdPool.allocate t.ns
  Node.create t.ns leaf key data parent
  return leaf

theorem insertRoot_eq (t : Tree) (key : List String) (data : String) :
    t.insertRoot key data = (do
      let leaf ← t.makeLeaf key data none
      setRoot t.ns (some leaf)
      setSize t.ns 1) := by
  simp [insertRoot, makeLeaf]

theorem insertBelow_eq (t : Tree) (key : List String) (data : String) (id : NodeId) (side : Side) :
    t.insertBelow key data id side = (do
      let leaf ← t.makeLeaf key data (some id)
      Node.setChild t.ns side id (some leaf)
      setSize t.ns (← Script.successor (← size t.ns))
      rebalanceFrom t.ns (some id)) := by
  simp [insertBelow, makeLeaf]

/-- An insert that is cut short has not linked its leaf, so the tree is stored as it was. -/
theorem StoredBeside.cut_insert (h : StoredBeside t c lost b d free high)
    (hns : t.ns < Word.size64) (arity : key.length = t.arity) (room : high + 1 < Word.size64)
    (short : c.Short) {value : String} (cut : (t.insert key value).CutAt c first) :
    ∃ lost' free' high', StoredBeside t (c.putAll first) lost' b d free' high' ∧
      high' ≤ high + 1 ∧ Contents.Changes (IsOwned t.ns) c (c.putAll first) := by
  obtain ⟨place, placed, located⟩ := h.run_place arity (by rw [walkBound]; omega)
  have cut := (cut.of_asks_bind ((asking t.ns).checkKey key) (run_checkKey c arity)).of_asks_bind
    ((asking t.ns).place key) placed
  cases located with
  | found hit =>
    -- A new payload is a single write.
    rw [cut.eq_nil (Nat.le_refl 1)]
    exact ⟨lost, free, high, h, by omega, .refl _ c⟩
  | @missing p pre post miss =>
    obtain ⟨leaf, free', high', c₁, c₂, issued, stored₁, bound, changes₁, created, -, -, new, -⟩ :=
      h.run_prepare value miss room
    have hleaf : leaf < Word.size64 := new.1.id_lt
    have ready : (t.makeLeaf key value p.parent).run c = .ok leaf c₂ := by
      rw [makeLeaf, Script.run_bind_ok issued, Script.run_bind_ok created]
      rfl
    have cut : (t.makeLeaf key value p.parent).CutAt c first := by
      cases p with
      | nil =>
        simp only [Trail.place, insertRoot_eq] at cut
        exact cut.of_bind_brief ready (brief_linkRoot hns hleaf) short
      | cons turn p =>
        have hid : turn.fork.id < Word.size64 := (Link.fits_some _).1 miss.focus.trail.fits
        simp only [Trail.place, insertBelow_eq] at cut
        exact cut.of_bind_brief ready (brief_linkBelow hns turn.side hid hleaf) short
    have writes : (t.makeLeaf key value p.parent).writes c =
        (IdPool.allocate t.ns).writes c ++
          (Node.create t.ns leaf key value p.parent).writes c₁ := by
      rw [makeLeaf, Script.writes_bind_ok issued, Script.writes_bind_ok created]
      exact congrArg _ (List.append_nil _)
    rcases stored₁.putAll_ready issued changes₁ (writes ▸ cut.isPrefix) with rfl | ⟨stored, changes⟩
    · exact ⟨lost, free, high, h, by omega, .refl _ c⟩
    · exact ⟨leaf :: lost, free', high', stored, bound, changes⟩

/-! ### Opening -/

variable {ns : FileId} {requested : Option (List KeyOrder)} {arity : Nat} {recorded : List KeyOrder}

/-- The record of the orders of a namespace. -/
def ordersRecord (ns : FileId) (orders : List KeyOrder) : Record :=
  ⟨(Key.orders ns).text.toUTF8, (KeyOrder.joinList orders).toUTF8⟩

/-- Where orders are recorded, opening writes nothing. -/
theorem writes_openFor_there (h : (recordedOrders ns).run c = .ok (some recorded) c)
    (record : Bool) : (openFor ns requested arity record).writes c = [] := by
  have asks := asks_recordedOrders ns
  have opens : ∀ orders, (openRecorded ns orders).writes c = [] := by
    intro orders
    unfold openRecorded
    split
    · rw [asks.writes_bind_ok h]
      simp only
      split <;> rfl
    · rfl
  rw [openFor, asks.writes_bind_ok h]
  simp only [Option.isSome_some, Bool.or_true, if_true]
  split
  · rfl
  · exact opens _

/-- Where none are recorded, the orders are all that is written, and only on demand. -/
theorem writes_openFor_absent (h : (recordedOrders ns).run c = .ok none c) (record : Bool) :
    ((openFor ns requested arity record).writes c).length ≤ 1 ∧
      (record = false → (openFor ns requested arity record).writes c = []) := by
  have asks := asks_recordedOrders ns
  have opens : ∀ orders, ((openRecorded ns orders).writes c).length ≤ 1 := by
    intro orders
    unfold openRecorded
    split
    · rw [asks.writes_bind_ok h]
      exact Nat.le_refl 1
    · exact Nat.zero_le 1
  rw [openFor, asks.writes_bind_ok h]
  simp only [Option.isSome_none, Bool.or_false]
  split
  · exact ⟨Nat.zero_le 1, fun _ => rfl⟩
  · cases record with
    | true => exact ⟨opens _, fun quiet => absurd quiet (by decide)⟩
    | false =>
      have nothing : ∀ orders, (withOrders ns orders).writes c = [] :=
        fun orders => (asks_withOrders ns orders).reads.writes_eq c
      simp only [Bool.false_eq_true, if_false, nothing]
      exact ⟨Nat.zero_le 1, fun _ => trivial⟩

/-- Where no orders are recorded, those that a tree is opened under are all that is written. -/
theorem writes_openFor_fresh (some_orders : ordersFor requested arity ≠ [])
    (fit : 0 < arity → (ordersFor requested arity).length = arity)
    (h : (recordedOrders ns).run c = .ok none c) :
    (openFor ns requested arity true).writes c =
      [((Key.orders ns).text, KeyOrder.joinList (ordersFor requested arity))] := by
  have asks := asks_recordedOrders ns
  have opening : ∃ next, openFor ns requested arity true = recordedOrders ns >>= next ∧ _ :=
    exists_openFor_eq fit
  obtain ⟨next, script, fresh⟩ := opening
  rw [script, asks.writes_bind_ok h, fresh, if_pos rfl, openRecorded, dif_pos some_orders,
    asks.writes_bind_ok h]
  rfl

end Tree

/-! ### Requests -/

/-- What is made of the result writes nothing. -/
theorem Script.writes_map {α β : Type} (f : α → β) (s : Script α) (c : Contents) :
    (f <$> s).writes c = s.writes c := by
  rw [← bind_pure_comp, writes_bind]
  cases s.run c <;> exact List.append_nil _

theorem Script.CutAt.of_map {α β : Type} {f : α → β} {s : Script α} {c : Contents}
    {first : List (String × String)} (h : (f <$> s).CutAt c first) : s.CutAt c first := by
  unfold CutAt at h ⊢
  rwa [writes_map] at h

/-- A request on a named entry makes one write at most. -/
theorem Request.length_writes_of_named {r : Request} (named : r.opens? = none) (c : Contents) :
    (r.script.writes c).length ≤ 1 := by
  have asked : ∀ {α : Type} {s : Script α} {S : Structure} (f : α → Output), s.Asks S →
      ((f <$> s).writes c).length ≤ 1 := by
    intro α s S f asks
    rw [Script.writes_map, asks.reads.writes_eq]
    exact Nat.zero_le 1
  have counted : ∀ id extra delta, ((Counter.add id extra delta).writes c).length ≤ 1 :=
    fun id extra delta => (Counter.asks_read id extra).length_writes_bind fun _ => Nat.le_refl 1
  cases r with
  | mapGet key => exact asked _ (Entry.asks_read key)
  | counterGet id extra => exact asked _ (Counter.asks_read id extra)
  | flagCheck id key extra => exact asked _ (Flag.asks_check id key extra)
  | listContains id key value => exact asked _ (IntList.asks_contains id key value)
  | listShow id key =>
    exact (IntList.asks_read id key).length_writes_bind fun _ => Nat.zero_le 1
  | mapSet | counterSet | flagSet | flagClear => exact Nat.le_refl 1
  | counterIncrement id extra | counterDecrement id extra =>
    rw [script, Script.writes_map]
    exact counted id extra _
  | listAdd id key value =>
    rw [script, Script.writes_map]
    refine (Script.asks_get (.list id key)).length_writes_bind fun found =>
      (IntList.asks_parsed (.list id key) _ _).length_writes_bind fun values => ?_
    split
    · exact Nat.zero_le 1
    · exact Nat.le_refl 1
  | listRemove id key value =>
    rw [script, Script.writes_map]
    refine (Script.asks_get (.list id key)).length_writes_bind fun found => ?_
    cases found with
    | none => exact Nat.zero_le 1
    | some raw =>
      refine (IntList.asks_parsed (.list id key) _ raw).length_writes_bind fun values => ?_
      split
      · exact Nat.le_refl 1
      · exact Nat.zero_le 1
  | treeInsert | treeDelete | treeGet | treeList | treeTop | treeSize => cases named

/-- A tree has no more orders than fit into a field. -/
theorem Shelf.StoredIn.length_orders_le {s : Shelf} {c : Contents} {ns : FileId} {n : Nat}
    (h : s.StoredIn c ns n) (short : c.Short) :
    s.orders.length ≤ Record.maxLength := by
  have recorded := h.recorded
  unfold Contents.read at recorded
  cases held : c (Key.orders ns).text.toUTF8 with
  | none =>
    rw [held] at recorded
    cases recorded
  | some bytes =>
    simp only [held] at recorded
    cases decoded : Utf8.decode bytes with
    | error fault =>
      rw [decoded] at recorded
      cases recorded
    | ok text =>
      rw [decoded] at recorded
      cases recorded
      have size := Utf8.length_le_size_toUTF8 (KeyOrder.joinList s.orders).toList
      rw [String.ofList_toList, String.length_toList, Utf8.toUTF8_of_decode decoded] at size
      have := KeyOrder.length_le_joinList s.orders
      have := short _ _ held
      omega

namespace Catalog

variable {k : Catalog} {n : Nat} {c c₁ : Contents} {ns : FileId} {s : Shelf} {r : Request}
  {requested : Option (List KeyOrder)} {arity : Nat} {first : List (String × String)}

/-- Opening a tree makes one write at most, and none where orders are recorded or are not to be. -/
theorem HoldsIn.writes_openFor (h : k.HoldsIn n c) (record : Bool) :
    ((Tree.openFor ns requested arity record).writes c).length ≤ 1 ∧
      (record = false ∨ (k ns).isSome →
        (Tree.openFor ns requested arity record).writes c = []) := by
  have run := h.run_recordedOrders ns
  cases there : k ns with
  | none =>
    rw [there] at run
    obtain ⟨single, silent⟩ := Tree.writes_openFor_absent run record
    exact ⟨single, fun quiet => silent (quiet.resolve_right (by simp))⟩
  | some s =>
    rw [there] at run
    rw [Tree.writes_openFor_there run record]
    exact ⟨Nat.zero_le 1, fun _ => rfl⟩

/-- A request that is refused writes nothing. -/
theorem HoldsIn.writes_of_refuses (h : k.HoldsIn n c) (sound : r.Sound) (refused : k.Refuses r) :
    r.script.writes c = [] := by
  obtain ⟨ns, requested, arity, s, opens, there, unsuited⟩ := refused
  obtain ⟨record, next, script⟩ := Request.script_of_opens opens
  have recorded := h.run_recordedOrders ns
  rw [there] at recorded
  have refusal : ∃ m, (Tree.openFor ns requested arity record).run c =
      .error (.error (.orderMismatch m)) c :=
    Tree.run_openFor_refused (Request.orders_sound sound opens).1 unsuited recorded
  obtain ⟨m, run⟩ := refusal
  rw [script, Script.writes_bind, run, Tree.writes_openFor_there recorded record]
  rfl

namespace HoldsIn

/-- A delete is not cut short. -/
theorem not_cut_delete (h : k.HoldsIn n c) (few : n < Word.size64) (short : c.Short)
    {key : List String} (sound : (Request.treeDelete ns requested key).Sound)
    (accepted : ¬ k.Refuses (.treeDelete ns requested key)) :
    ¬ (Request.treeDelete ns requested key).script.CutAt c first := by
  intro cut
  obtain ⟨t, c₁, run, tree, same, -⟩ := h.opened sound accepted rfl false
  obtain rfl := same rfl
  obtain ⟨hns, some_key, -⟩ := sound
  obtain ⟨lost, b, free, high, stored, bound⟩ := tree.tree
  have deletes : (t.delete key).CutAt c₁ first := by
    have silent : (Tree.openFor ns requested key.length false).writes c₁ = [] :=
      (h.writes_openFor false).2 (Or.inl rfl)
    rcases cut.of_bind run with opening | ⟨more, rfl, deleting⟩
    · have := opening.length_lt
      rw [silent] at this
      exact absurd this (Nat.not_lt_zero _)
    · rw [silent, List.nil_append]
      exact Script.CutAt.of_map (f := Output.bool) deleting
  cases there : k ns with
  | none =>
    -- There are no entries, so there is none to delete.
    have arity := tree.arity_eq (List.length_pos_iff.2 some_key)
    rw [entries_of_none there] at stored
    have small : high ≤ Tree.walkBound := by
      rw [Tree.walkBound]
      omega
    rcases stored.run_find arity small with
      ⟨p, l, f, r, pre, e, post, -, hit⟩ | ⟨p, pre, post, found, -⟩
    · have := hit.split
      simp at this
    · have idle := (deletes.of_asks_bind ((Tree.asking t.ns).checkKey key)
        (Tree.run_checkKey c₁ arity)).of_asks_bind ((Tree.asking t.ns).find key) found
      exact absurd idle.length_lt (Nat.not_lt_zero _)
  | some s =>
    have orders := ((h (.space ns)).1 s there).length_orders_le short
    obtain rfl := tree.ns_eq
    have small : t.arity + 6 ≤ Word.size64 := by
      rw [Tree.arity, tree.known there]
      exact (Nat.add_le_add_right orders 6).trans (by decide)
    exact deletes.not_fits ((Tree.brief_delete hns small key).fits short)

/-- Opening a tree is cut short only by orders that are too long to be recorded. -/
theorem not_cut_openFor (h : k.HoldsIn n c) (some_orders : Tree.ordersFor requested arity ≠ [])
    (fit : 0 < arity → (Tree.ordersFor requested arity).length = arity)
    (fits : (Tree.ordersRecord ns (Tree.ordersFor requested arity)).Fits) :
    ¬ (Tree.openFor ns requested arity true).CutAt c first := by
  intro cut
  refine cut.not_fits ?_
  cases there : k ns with
  | none =>
    have absent := h.run_recordedOrders ns
    rw [there] at absent
    rw [Tree.writes_openFor_fresh some_orders fit absent]
    exact List.forall_mem_singleton.2 fits
  | some s =>
    rw [(h.writes_openFor true).2 (Or.inr (by rw [there]; rfl))]
    exact List.forall_mem_nil _

/-- An insert that is cut short leaves the entries as they were. If it is the first one, its orders
are recorded, unless they are what is too long. -/
theorem cut_insert (h : k.HoldsIn n c) (few : n + 1 < Word.size64) (short : c.Short)
    {key : List String} {data : String} (sound : (Request.treeInsert ns requested key data).Sound)
    (accepted : ¬ k.Refuses (.treeInsert ns requested key data))
    (cut : (Request.treeInsert ns requested key data).script.CutAt c first) :
    ∃ k' : Catalog, k'.HoldsIn (n + 1) (c.putAll first) ∧
      (k ns = none → (Tree.ordersRecord ns (Tree.ordersFor requested key.length)).Fits →
        (k' ns).map Shelf.orders = some (Tree.ordersFor requested key.length)) := by
  obtain ⟨t, c₁, run, tree, -, recorded⟩ := h.opened sound accepted rfl true
  obtain ⟨some_requested, matching⟩ := Request.orders_sound sound rfl
  obtain ⟨some_orders, suited⟩ := Tree.ordersFor_sound some_requested matching
  obtain ⟨hns, some_key, -⟩ := sound
  obtain ⟨lost, b, free, high, stored, bound⟩ := tree.tree
  have fit := cut.fits
  rcases cut.of_bind run with opening | ⟨more, rfl, inserting⟩
  · -- Nothing was written yet, and it was the orders that are too long.
    rw [opening.eq_nil (h.writes_openFor true).1]
    exact ⟨k, h.idle, fun _ fits => absurd opening (h.not_cut_openFor some_orders suited fits)⟩
  · have left : c.putAll ((Tree.openFor ns requested key.length true).writes c) = c₁ := by
      rw [← Script.left_eq_putAll, run]
      rfl
    rw [List.forall_mem_append] at fit
    have short₁ : c₁.Short := left ▸ short.putAll fit.1
    rw [Contents.putAll_append, left]
    obtain rfl := tree.ns_eq
    have inserting : (t.insert key data).CutAt c₁ more :=
      Script.CutAt.of_map (f := fun _ => Output.ok) inserting
    obtain ⟨lost', free', high', stored', bound', changes⟩ := stored.cut_insert hns
      (tree.arity_eq (List.length_pos_iff.2 some_key)) (by omega) short₁ inserting
    refine ⟨k.set t.ns ⟨t.orders, k.entries t.ns⟩, h.step (T := .space t.ns) ?_ ?_ ?_, ?_⟩
    · -- Neither opening nor inserting leaves the namespace.
      intro S other
      have left₁ := (Tree.within_openFor t.ns requested key.length true).run_other other c
      rw [run] at left₁
      refine left₁.trans fun key owner => (changes key fun owned => ?_).symm
      exact other ((Tree.owner_of_isOwned owned).symm.trans owner)
    · intro ns other
      refine set_of_ne ?_
      rintro rfl
      exact other rfl
    · refine holds_of_some (set_self k t.ns _) ⟨t.orders_ne_nil, ?_, lost', b, free', high',
        stored', by omega⟩
      rw [changes.read_eq (Tree.not_isOwned_orders t.ns)]
      exact recorded rfl
    · intro fresh _
      rw [set_self, Option.map_some, tree.orders_eq, fresh]
      rfl

/-- Wherever a request is cut short, the fields are as some catalog has them. -/
theorem cut_short (h : k.HoldsIn n c) (few : n + 1 < Word.size64) (sound : r.Sound)
    (short : c.Short) (cut : r.script.CutAt c first) :
    ∃ k' : Catalog, k'.HoldsIn (n + 1) (c.putAll first) := by
  have single : (r.script.writes c).length ≤ 1 →
      ∃ k' : Catalog, k'.HoldsIn (n + 1) (c.putAll first) := by
    intro single
    rw [cut.eq_nil single]
    exact ⟨k, h.idle⟩
  by_cases refused : k.Refuses r
  · refine single ?_
    rw [h.writes_of_refuses sound refused]
    exact Nat.zero_le 1
  -- A query opens its tree without a write, and asks it.
  have asked : ∀ {ns requested arity} {next : Tree → Script Output},
      r.opens? = some (ns, requested, arity) →
      r.script = Tree.openFor ns requested arity false >>= next →
      (∀ t, (next t).Asks (.space t.ns)) → (r.script.writes c).length ≤ 1 := by
    intro ns requested arity next opens script asks
    obtain ⟨t, c₁, run, -⟩ := h.opened sound refused opens false
    rw [script, Script.writes_bind_ok run, (asks t).reads.writes_eq, List.append_nil]
    exact (h.writes_openFor false).1
  cases r with
  | treeInsert ns requested key data =>
    obtain ⟨k', holds, -⟩ := h.cut_insert few short sound refused cut
    exact ⟨k', holds⟩
  | treeDelete ns requested key =>
    exact absurd cut (h.not_cut_delete (by omega) short sound refused)
  | treeGet ns requested key =>
    exact single (asked rfl rfl fun t => (Tree.asks_get_payload t key).bind fun _ => trivial)
  | treeList ns requested =>
    exact single (asked rfl rfl fun t => (Tree.asks_entries t).bind fun _ => trivial)
  | treeTop ns m =>
    exact single (asked rfl rfl fun t => (Tree.asks_top t m).bind fun _ => trivial)
  | treeSize ns =>
    exact single (asked rfl rfl fun t => (Tree.asks_size t.ns).bind fun _ => trivial)
  | _ => exact single (Request.length_writes_of_named rfl c)

end HoldsIn

end Catalog

end FlatStore
