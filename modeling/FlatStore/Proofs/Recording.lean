import FlatStore.Proofs.Applied
import FlatStore.Proofs.Isolation
import FlatStore.Proofs.Tree.Orders

/-! # Orders are recorded once

    The first opening of a tree that names some orders records them for the
    namespace. A run takes one move after the other: calls of any structure,
    flushes, losses of cached texts, and byte stores exchanged for others that
    hold the same. Beside the fields, a run carries its calls, latest first.

    * **Other calls** write no recorded orders, whatever they find
      (`Operation.spares_orders`).
    * **Step**: each move leaves in every namespace the orders that the first
      opening with some orders named (`Kept.step`).
    * `orders_are_recorded_once`: so these are answered from then on, and only
      under them a tree is opened.
-/

namespace FlatStore

/-! ### Scripts that write no recorded orders -/

namespace Script

variable {α β : Type} {P : Key → Prop} {s : Script α}

theorem Reads.spares (h : s.Reads) : s.Spares P := by
  induction s with
  | done | fail => trivial
  | read key next ih => exact fun found => ih found (h found)
  | write => exact h.elim

theorem Spares.bind {f : α → Script β} (h : s.Spares P) (hf : ∀ a, (f a).Spares P) :
    (s >>= f).Spares P := by
  show (s.bind f).Spares P
  induction s with
  | done a => exact hf a
  | fail => trivial
  | read key next ih => exact fun found => ih found (h found)
  | write key value next ih => exact ⟨h.1, ih h.2⟩

/-- A script spares the fields of other structures. -/
theorem Within.spares {S : Structure} (h : s.Within S) (other : ∀ k, P k → k.owner ≠ S) :
    s.Spares P := by
  induction s with
  | done | fail => trivial
  | read key next ih => exact fun found => ih found (h.2 found)
  | write key value next ih =>
    obtain ⟨⟨k, own, rfl⟩, rest⟩ := h
    refine ⟨fun k' hk' text => other k' hk' ?_, ih rest⟩
    rw [Key.owner_eq_of_text_eq text, own]

end Script

/-- The field holds the recorded orders of some namespace. -/
def Key.IsOrders (k : Key) : Prop := ∃ ns, k = .orders ns

namespace Tree

/-- Sparing the recorded orders is a rule for all that a tree and its pool do. -/
def sparingOrders (ns : FileId) : Rule ns where
  Holds s := s.Spares Key.IsOrders
  done _ := trivial
  fail _ := trivial
  bind := Script.Spares.bind
  height id := ((asking ns).height id).reads.spares
  balance id := ((asking ns).balance id).reads.spares
  data id := ((asking ns).data id).reads.spares
  child side id := ((asking ns).child side id).reads.spares
  parent id := ((asking ns).parent id).reads.spares
  component id i := ((asking ns).component id i).reads.spares
  root := (asking ns).root.reads.spares
  size := (asking ns).size.reads.spares
  highWater := (IdPool.asks_highWater ns).reads.spares
  freeCount := (IdPool.asks_freeCount ns).reads.spares
  topId slot := by
    refine Script.Spares.bind (Script.asks_getParsed _ (.freeSlot ns slot)).reads.spares ?_
    intro found
    cases found <;> trivial
  put k own other value := by
    refine ⟨?_, trivial⟩
    rintro _ ⟨ns', rfl⟩ text
    -- Both keys are in a namespace, so they are the same key and in the same namespace.
    obtain rfl := (Key.text_inj (k := .orders ns') (by simp)).1 text
    exact other (congrArg Key.orders (Option.some.inj own))

end Tree

namespace Operation

variable {α : Type}

/-- The operation does not open a tree. -/
def OpensNothing : Operation α → Prop
  | openTree _ _ => False
  | _ => True

theorem opens_or_not (call : Call) :
    (∃ ns orders, call = ⟨.openTree ns orders⟩) ∨ call.operation.OpensNothing := by
  obtain ⟨o⟩ := call
  cases o with
  | openTree ns orders => exact Or.inl ⟨ns, orders, rfl⟩
  | _ => exact Or.inr trivial

/-- Every other operation than opening a tree spares the recorded orders. -/
theorem spares_orders (o : Operation α) (other : o.OpensNothing) :
    o.script.Spares Key.IsOrders := by
  -- A structure that is not in a namespace has no recorded orders among its fields.
  have named : ∀ S : Structure, o.target = S → (∀ ns, S ≠ .space ns) →
      o.script.Spares Key.IsOrders := by
    rintro S rfl named
    refine o.within_script.spares ?_
    rintro _ ⟨ns, rfl⟩ owner
    exact named ns owner.symm
  cases o with
  | readMap | writeMap | getCounter | setCounter | incrementCounter | decrementCounter | setFlag
  | clearFlag | checkFlag | readList | listContains | addToList | removeFromList =>
    exact named _ rfl nofun
  | highWater ns => exact (IdPool.asks_highWater ns).reads.spares
  | freeCount ns => exact (IdPool.asks_freeCount ns).reads.spares
  | allocate ns => exact (Tree.sparingOrders ns).allocate
  | free ns id => exact (Tree.sparingOrders ns).free id
  | recordedOrders ns => exact (Tree.asks_recordedOrders ns).reads.spares
  | openTree ns orders => exact other.elim
  | treeInsert t key data => exact (Tree.sparingOrders t.ns).insert key data
  | treeDelete t key => exact (Tree.sparingOrders t.ns).delete key
  | treeGet t key => exact (Tree.asks_get_payload t key).reads.spares
  | treeContains t key => exact (Tree.asks_contains t key).reads.spares
  | treeSize t => exact (Tree.asks_size t.ns).reads.spares
  | treeIsEmpty t => exact (Tree.asks_isEmpty t).reads.spares
  | treeHeight t => exact (Tree.asks_height t).reads.spares
  | treeKeys t => exact (Tree.asks_keys t).reads.spares
  | treeEntries t => exact (Tree.asks_entries t).reads.spares
  | treeTop t n => exact (Tree.asks_top t n).reads.spares

end Operation

namespace Recording

/-! ### Runs -/

/-- What can happen to a field store. -/
inductive Move (σ : Type) where
  | call (call : Call)
  | clearCache
  | flush
  /-- The byte store is exchanged for one that holds the same. -/
  | exchange (store : σ)

variable {σ : Type} [ByteStore σ]

namespace Move

/-- The byte store takes what is written. -/
def Allowed (view : StoreView σ) (f : FieldStore σ) : Move σ → Prop
  | call asked => view.TakesAll (asked.operation.script.writes (view.contents f.store))
  | clearCache | flush => True
  | exchange store => view.sound store ∧ view.contents store = view.contents f.store

/-- The field store after a move, whatever its outcome. -/
def apply (f : FieldStore σ) : Move σ → FieldStore σ
  | call asked => leftBy (FieldStore.perform asked.operation.script f)
  | clearCache => f.clearCache
  | flush => leftBy (FieldStore.flush f)
  | exchange store => { f with store }

/-- The call that the move is, if it is one. -/
def call? : Move σ → Option Call
  | call asked => some asked
  | clearCache | flush | exchange _ => none

end Move

/-- Field stores that some run leads to in which no namespace had recorded orders at first, with the
calls of the run, latest first. -/
inductive Reachable (view : StoreView σ) : List Call → FieldStore σ → Prop where
  | start {f : FieldStore σ} {c : Contents} (shown : f.Shows view c)
      (unset : ∀ ns, c (Key.orders ns).text.toUTF8 = none) : Reachable view [] f
  | step {past : List Call} {f : FieldStore σ} (m : Move σ) (h : Reachable view past f)
      (allowed : m.Allowed view f) : Reachable view (m.call?.toList ++ past) (m.apply f)

/-- The orders that a call names for the tree of a namespace, if it opens it under some. -/
def names? (ns : FileId) : Call → Option (List KeyOrder)
  | ⟨.openTree ns' orders⟩ => if ns' = ns ∧ orders ≠ [] then some orders else none
  | _ => none

/-- The orders that the first opening of the tree of a namespace named, of calls latest first. -/
def first? (past : List Call) (ns : FileId) : Option (List KeyOrder) :=
  past.reverse.findSome? (names? ns)

/-- A tree can be opened under orders, where these or none are recorded. -/
def Accepts (recorded : Option (List KeyOrder)) (orders : List KeyOrder) : Prop :=
  orders ≠ [] ∧ ∀ first ∈ recorded, orders = first

instance (recorded : Option (List KeyOrder)) (orders : List KeyOrder) :
    Decidable (Accepts recorded orders) :=
  inferInstanceAs (Decidable (_ ∧ _))

variable {past : List Call} {ns : FileId} {orders : List KeyOrder}

theorem first?_cons (call : Call) (past : List Call) (ns : FileId) :
    first? (call :: past) ns = (first? past ns).or (names? ns call) := by
  rw [first?, List.reverse_cons, List.findSome?_append, List.findSome?_singleton]
  rfl

/-- What was named first stays what was named first. -/
theorem first?_cons_of_nothing_new {call : Call}
    (nothing_new : first? past ns ≠ none ∨ names? ns call = none) :
    first? (call :: past) ns = first? past ns := by
  rw [first?_cons]
  rcases nothing_new with known | unnamed
  · obtain ⟨first, there⟩ := Option.ne_none_iff_exists'.1 known
    rw [there, Option.some_or]
  · rw [unnamed, Option.or_none]

theorem ne_nil_of_first? (h : first? past ns = some orders) : orders ≠ [] := by
  obtain ⟨call, -, named⟩ := List.exists_of_findSome?_eq_some h
  unfold names? at named
  split at named
  · split at named
    · next asked =>
      cases named
      exact asked.2
    · cases named
  · cases named

theorem names?_of_opensNothing {call : Call} (h : call.operation.OpensNothing) (ns : FileId) :
    names? ns call = none := by
  obtain ⟨o⟩ := call
  cases o with
  | openTree => exact h.elim
  | _ => rfl

/-- An opening names nothing new unless it is the first one under some orders. -/
theorem first?_cons_of_known (known : orders = [] ∨ first? past ns ≠ none) (ns' : FileId) :
    first? (⟨.openTree ns orders⟩ :: past) ns' = first? past ns' := by
  refine first?_cons_of_nothing_new ?_
  by_cases asked : ns = ns' ∧ orders ≠ []
  · obtain ⟨rfl, some_orders⟩ := asked
    exact Or.inl (known.resolve_left some_orders)
  · exact Or.inr (if_neg asked)

/-- Orders under which a tree was opened are the first ones behind it. -/
theorem first?_cons_of_accepts (accepts : Accepts (first? past ns) orders) :
    first? (⟨.openTree ns orders⟩ :: past) ns = some orders := by
  rw [first?_cons, names?, if_pos ⟨rfl, accepts.1⟩]
  cases first : first? past ns with
  | none => rfl
  | some orders' => rw [Option.some_or, accepts.2 orders' first]

/-! ### The invariant of a run -/

/-- Every namespace has recorded what was named first for its tree. -/
structure Kept (view : StoreView σ) (past : List Call) (f : FieldStore σ) : Prop where
  shows : f.Shows view (view.contents f.store)
  fields : ∀ ns, (view.contents f.store).read (Key.orders ns).text =
    .ok ((first? past ns).map KeyOrder.joinList)

variable {view : StoreView σ} {f : FieldStore σ} {c : Contents}

theorem kept_of_shows (shown : f.Shows view c)
    (fields : ∀ ns, c.read (Key.orders ns).text = .ok ((first? past ns).map KeyOrder.joinList)) :
    Kept view past f := by
  obtain rfl := shown.contents
  exact ⟨shown, fields⟩

namespace Kept

theorem run_recordedOrders (h : Kept view past f) (ns : FileId) :
    (Tree.recordedOrders ns).run (view.contents f.store) =
      .ok (first? past ns) (view.contents f.store) := by
  have field := h.fields ns
  cases first : first? past ns with
  | none =>
    rw [first] at field
    exact Tree.run_recordedOrders_absent field
  | some orders =>
    rw [first] at field
    exact Tree.run_recordedOrders_there (ne_nil_of_first? first) field

/-- Under other orders than the recorded ones, or none at all, a tree is not opened, and nothing is
written. -/
theorem run_refused (h : Kept view past f) (refused : ¬ Accepts (first? past ns) orders) :
    ∃ m, (Tree.openRecorded ns orders).run (view.contents f.store) =
        .error (.error (.orderMismatch m)) (view.contents f.store) ∧
      (Tree.openRecorded ns orders).writes (view.contents f.store) = [] := by
  by_cases some_orders : orders = []
  · subst some_orders
    exact ⟨.noOrders ns, rfl, rfl⟩
  have recorded := h.run_recordedOrders ns
  obtain ⟨first, there, differ⟩ : ∃ first, first? past ns = some first ∧ first ≠ orders := by
    by_contra same
    refine refused ⟨some_orders, fun first there => ?_⟩
    by_contra differ
    exact same ⟨first, there, Ne.symm differ⟩
  rw [there] at recorded
  refine ⟨.different ns first orders, Tree.run_openRecorded_other some_orders differ recorded, ?_⟩
  rw [Tree.openRecorded, dif_pos some_orders, Script.writes_bind_ok recorded,
    (Tree.asks_recordedOrders ns).reads.writes_eq]
  simp only [ne_eq, differ, not_false_eq_true, if_true]
  rfl

/-- Under the recorded orders, or the first ones, a tree is opened, and they are recorded. -/
theorem run_accepted (h : Kept view past f) (some_orders : orders ≠ [])
    (same : ∀ first ∈ first? past ns, orders = first) :
    ∃ c', (Tree.openRecorded ns orders).run (view.contents f.store) =
        .ok ⟨ns, orders, some_orders⟩ c' ∧
      ∀ ns', c'.read (Key.orders ns').text =
        .ok ((first? (⟨.openTree ns orders⟩ :: past) ns').map KeyOrder.joinList) := by
  have recorded := h.run_recordedOrders ns
  cases first : first? past ns with
  | none =>
    rw [first] at recorded
    refine ⟨_, Tree.run_openRecorded_first some_orders recorded, fun ns' => ?_⟩
    rw [Contents.read_put, h.fields, first?_cons, names?]
    by_cases same : ns = ns'
    · subst same
      rw [if_pos rfl, first, Option.none_or, if_pos ⟨rfl, some_orders⟩, Option.map_some]
    · have apart : (Key.orders ns').text ≠ (Key.orders ns).text := by
        intro text
        exact same (Key.orders.inj ((Key.text_inj (by simp)).1 text)).symm
      rw [if_neg apart, if_neg fun both => same both.1, Option.or_none]
  | some orders' =>
    obtain rfl := same orders' first
    rw [first] at recorded
    refine ⟨_, Tree.run_openRecorded_same some_orders recorded, fun ns' => ?_⟩
    rw [first?_cons_of_known (Or.inr (by simp [first])), h.fields]

/-- Every call keeps what was recorded. -/
theorem call (h : Kept view past f) (call : Call)
    (takes : view.TakesAll (call.operation.script.writes (view.contents f.store))) :
    Kept view (call :: past) (leftBy (FieldStore.perform call.operation.script f)) := by
  have shown := FieldStore.perform_left h.shows takes
  refine kept_of_shows shown fun ns' => ?_
  rcases Operation.opens_or_not call with ⟨ns, orders, rfl⟩ | other
  · by_cases accepts : Accepts (first? past ns) orders
    · obtain ⟨c', run, fields⟩ := h.run_accepted accepts.1 accepts.2
      simp only [Operation.script, run, leftBy]
      exact fields ns'
    · obtain ⟨m, run, -⟩ := h.run_refused accepts
      have known : orders = [] ∨ first? past ns ≠ none := by
        by_contra fresh
        rw [not_or, not_not] at fresh
        exact accepts ⟨fresh.1, by simp [fresh.2]⟩
      simp only [Operation.script, run, leftBy]
      rw [first?_cons_of_known known, h.fields]
  · have changes := (call.operation.spares_orders other).changes (view.contents f.store)
    have nothing_new := names?_of_opensNothing other ns'
    rw [changes.read_eq fun elsewhere => elsewhere ⟨ns', rfl⟩, h.fields,
      first?_cons_of_nothing_new (Or.inr nothing_new)]

/-- Every move keeps what was recorded. -/
theorem step (h : Kept view past f) {m : Move σ} (allowed : m.Allowed view f) :
    Kept view (m.call?.toList ++ past) (m.apply f) := by
  cases m with
  | call asked => exact h.call asked allowed
  | clearCache => exact kept_of_shows h.shows.clearCache h.fields
  | flush =>
    obtain ⟨f', shown, flushed⟩ := FieldStore.flush_shows h.shows
    rw [Move.apply, flushed]
    exact kept_of_shows shown h.fields
  | exchange store =>
    have cached := h.shows.cached
    exact kept_of_shows ⟨allowed.1, allowed.2, cached⟩ h.fields

end Kept

/-- The recorded orders are answered. -/
theorem Kept.perform_recordedOrders (h : Kept view past f) (ns : FileId) :
    ∃ f', FieldStore.perform (Tree.recordedOrders ns) f = .ok (first? past ns) f' := by
  obtain ⟨f', performed, -⟩ := FieldStore.perform_ok h.shows (h.run_recordedOrders ns)
    ((Tree.asks_recordedOrders ns).reads.takesAll view _)
  exact ⟨f', performed⟩

theorem Reachable.kept (h : Reachable view past f) : Kept view past f := by
  induction h with
  | start shown unset =>
    refine kept_of_shows shown fun ns => ?_
    rw [Contents.read, unset]
    rfl
  | step m _ allowed ih => exact ih.step allowed

/-! ### What is recorded -/

/-- Along every run, what is recorded for a namespace is what the first opening of its tree under
some orders named. A tree is opened just under these, or under any where none are recorded yet; else
the orders do not match, and no field is changed. Behind any other call than the first opening, and
behind one that is refused, the recorded orders are answered as before. -/
theorem orders_are_recorded_once (h : Reachable view past f) (ns : FileId) :
    (∃ f', FieldStore.perform (Tree.recordedOrders ns) f = .ok (first? past ns) f') ∧
    (∀ orders (accepts : Accepts (first? past ns) orders),
      view.TakesAll ((Tree.openRecorded ns orders).writes (view.contents f.store)) →
      ∃ f' f'', FieldStore.perform (Tree.openRecorded ns orders) f =
          .ok ⟨ns, orders, accepts.1⟩ f' ∧
        FieldStore.perform (Tree.recordedOrders ns) f' = .ok (some orders) f'') ∧
    (∀ orders, ¬ Accepts (first? past ns) orders → ∃ m f',
      FieldStore.perform (Tree.openRecorded ns orders) f = .error (.error (.orderMismatch m)) f' ∧
      FieldStore.applied (Tree.openRecorded ns orders) f = [] ∧
      view.contents f'.store = view.contents f.store) ∧
    (∀ call : Call, first? past ns ≠ none ∨ names? ns call = none →
      view.TakesAll (call.operation.script.writes (view.contents f.store)) →
      ∃ f', FieldStore.perform (Tree.recordedOrders ns)
        (leftBy (FieldStore.perform call.operation.script f)) = .ok (first? past ns) f') ∧
    (∀ orders, orders ≠ [] → KeyOrder.parseList (KeyOrder.joinList orders) = .ok orders) := by
  have kept := h.kept
  refine ⟨kept.perform_recordedOrders ns, ?_, ?_, ?_, fun orders => KeyOrder.parseList_joinList⟩
  · intro orders accepts takes
    obtain ⟨c', run, fields⟩ := kept.run_accepted accepts.1 accepts.2
    obtain ⟨f', performed, shown⟩ := FieldStore.perform_ok kept.shows run takes
    obtain ⟨f'', answer⟩ := (kept_of_shows shown fields).perform_recordedOrders ns
    exact ⟨f', f'', performed, first?_cons_of_accepts accepts ▸ answer⟩
  · intro orders refused
    obtain ⟨m, run, nothing⟩ := kept.run_refused refused
    obtain ⟨f', failed, unwritten, shown⟩ := FieldStore.perform_refused kept.shows run nothing
    exact ⟨m, f', failed, unwritten, shown.contents⟩
  · intro call nothing_new takes
    obtain ⟨f', answer⟩ := (kept.call call takes).perform_recordedOrders ns
    exact ⟨f', first?_cons_of_nothing_new nothing_new ▸ answer⟩

/-- The tree of a namespace is opened under no orders, under one, changed, and opened under others:
the first orders stay recorded, and just they open it again. -/
theorem first_orders_stay_recorded :
    ∃ f f₁ f₂ f₃ f₄ : FieldStore Memory, ∃ m some_orders,
      Reachable Memory.view [⟨.openTree 4 [.lex]⟩,
        ⟨.treeInsert ⟨4, [.asc], some_orders⟩ ["7"] "x"⟩, ⟨.openTree 4 [.asc]⟩,
        ⟨.openTree 4 []⟩] f ∧
      FieldStore.perform (Tree.recordedOrders 4) f = .ok (some [.asc]) f₁ ∧
      FieldStore.perform (Tree.openRecorded 4 [.asc]) f = .ok ⟨4, [.asc], some_orders⟩ f₂ ∧
      FieldStore.perform (Tree.openRecorded 4 [.lex]) f = .error (.error (.orderMismatch m)) f₃ ∧
      FieldStore.perform (Tree.recordedOrders 5) f = .ok none f₄ := by
  have all : ∀ writes, Memory.view.TakesAll writes := fun _ _ _ => trivial
  have start := Reachable.start shows_empty fun _ => Std.TreeMap.getElem?_emptyc
  have refused := start.step (.call ⟨.openTree 4 []⟩) (all _)
  have opened := refused.step (.call ⟨.openTree 4 [.asc]⟩) (all _)
  have changed := opened.step (.call ⟨.treeInsert ⟨4, [.asc], by simp⟩ ["7"] "x"⟩) (all _)
  have run := changed.step (.call ⟨.openTree 4 [.lex]⟩) (all _)
  obtain ⟨⟨f₁, recorded⟩, opens, refuses, -⟩ := orders_are_recorded_once run 4
  obtain ⟨⟨f₄, nothing⟩, -⟩ := orders_are_recorded_once run 5
  obtain ⟨f₂, -, again, -⟩ := opens [.asc] (by decide) (all _)
  obtain ⟨m, f₃, other, -⟩ := refuses [.lex] (by decide)
  exact ⟨_, f₁, f₂, f₃, f₄, m, _, run, recorded, again, other, nothing⟩

end Recording

end FlatStore
