import FlatStore.Proofs.Tree.Delete
import FlatStore.Proofs.Tree.Orders
import FlatStore.Proofs.Tree.Queries
import FlatStore.Proofs.Tree.Traversal

/-! # Runs of a tree

    A run starts with an empty namespace and takes one move after the other:
    calls of the tree, opening it again under the same orders, and whatever
    else happens to the fields as long as the tree is the only writer of its
    namespace. Beside the fields, a run carries the dictionary that the calls
    would have made, and the number of inserts.

    * `Served.step`: every move keeps the invariant.
    * `answers_as_dictionary`: every call gives what the dictionary gives.
    * `stored_shape_sound`: the stored fields make up a balanced search tree, and its
      ids and the free ones are those that were issued.
-/

namespace FlatStore

/-- The keys of a namespace. -/
def Key.InNamespace (ns : FileId) (k : Key) : Prop := k.namespace? = some ns

namespace Tree

/-! ### The recorded orders -/

/-- The orders recorded for the namespace, if there are any, are those of the tree. -/
def Agrees (t : Tree) (c : Contents) : Prop :=
  c.read (Key.orders t.ns).text = .ok none ∨
    c.read (Key.orders t.ns).text = .ok (some (KeyOrder.joinList t.orders))

/-- Opening a tree again under its own orders succeeds. -/
theorem run_openRecorded {t : Tree} {c : Contents} (h : t.Agrees c) :
    ∃ c', (openRecorded t.ns t.orders).run c = .ok t c' ∧ t.Agrees c' ∧
      Contents.Changes (· = .orders t.ns) c c' := by
  rcases h with h | h
  · -- Nothing is recorded yet, and the orders of the tree are.
    refine ⟨_, run_openRecorded_first t.orders_ne_nil (run_recordedOrders_absent h), ?_,
      .single c _ _⟩
    exact Or.inr (by rw [Contents.read_put, if_pos rfl])
  · have recorded := run_recordedOrders_there t.orders_ne_nil h
    exact ⟨c, run_openRecorded_same t.orders_ne_nil recorded, Or.inr h, .refl _ c⟩

/-! ### Moves -/

/-- What can happen to the fields of a tree. -/
inductive Move where
  | insert (key : List String) (value : String)
  | delete (key : List String)
  /-- Open the tree again under its orders. -/
  | reopen
  /-- Anything that is not done through the tree. -/
  | other (s : Script Unit)
  | clearCache
  | flush

namespace Move

/-- Keys have a component for each order, and the tree is the only writer of its namespace. -/
def Allowed (t : Tree) : Move → Prop
  | insert key _ => key.length = t.arity
  | delete key => key.length = t.arity
  | other s => s.Spares (Key.InNamespace t.ns)
  | reopen | clearCache | flush => True

/-- The field store after a move, whatever its outcome. -/
def apply {σ : Type} [ByteStore σ] (t : Tree) (f : FieldStore σ) : Move → FieldStore σ
  | insert key value => leftBy (FieldStore.perform (t.insert key value) f)
  | delete key => leftBy (FieldStore.perform (t.delete key) f)
  | reopen => leftBy (FieldStore.perform (openRecorded t.ns t.orders) f)
  | other s => leftBy (FieldStore.perform s f)
  | clearCache => f.clearCache
  | flush => leftBy (FieldStore.flush f)

/-- The writes of a move. -/
def writes (t : Tree) (c : Contents) : Move → List (String × String)
  | insert key value => (t.insert key value).writes c
  | delete key => (t.delete key).writes c
  | reopen => (openRecorded t.ns t.orders).writes c
  | other s => s.writes c
  | clearCache | flush => []

/-- What a move does to the dictionary. -/
def onDictionary (t : Tree) (d : Dictionary) : Move → Dictionary
  | insert key value => d.insert t.orders key value
  | delete key => d.erase t.orders key
  | reopen | other _ | clearCache | flush => d

/-- The number of inserts that a move is. -/
def inserts : Move → Nat
  | insert _ _ => 1
  | delete _ | reopen | other _ | clearCache | flush => 0

end Move

variable {σ : Type} [ByteStore σ]

/-- Field stores that some run leads to, with the number of inserts on the way and the dictionary
that they made. No move of the run meets a write that the store refuses. -/
inductive Reachable (t : Tree) (view : StoreView σ) : Nat → Dictionary → FieldStore σ → Prop where
  | start {f : FieldStore σ} {c : Contents} (shows : f.Shows view c)
      (empty : ∀ k : Key, k.InNamespace t.ns → c k.text.toUTF8 = none) : Reachable t view 0 [] f
  | step {n : Nat} {d : Dictionary} {f : FieldStore σ} (m : Move) (h : Reachable t view n d f)
      (allowed : m.Allowed t) (takes : view.TakesAll (m.writes t (view.contents f.store))) :
      Reachable t view (n + m.inserts) (m.onDictionary t d) (m.apply t f)

/-- A run can start in an empty memory. -/
theorem reachable_empty (t : Tree) : Reachable t Memory.view 0 [] { store := Memory.empty } :=
  .start (c := Memory.view.contents Memory.empty) ⟨trivial, rfl, fun _ _ h => nomatch h⟩
    fun _ _ => rfl

/-! ### The invariant of a run -/

/-- The field store serves the tree with the entries `d`: the tree is stored, the ids `lost` are of
no use to it, and at most `n` ids were ever issued. -/
structure ServedBeside (t : Tree) (view : StoreView σ) (n : Nat) (lost : List NodeId)
    (d : Dictionary) (f : FieldStore σ) (b : Branch) (free : List NodeId) (high : Nat) : Prop where
  shows : f.Shows view (view.contents f.store)
  stored : StoredBeside t (view.contents f.store) lost b d free high
  agrees : t.Agrees (view.contents f.store)
  issued : high ≤ n

/-- The field store serves the tree with the entries `d`, and no id is lost. -/
abbrev Served (t : Tree) (view : StoreView σ) (n : Nat) (d : Dictionary) (f : FieldStore σ)
    (b : Branch) (free : List NodeId) (high : Nat) : Prop :=
  ServedBeside t view n [] d f b free high

variable {t : Tree} {view : StoreView σ} {n : Nat} {d : Dictionary} {f : FieldStore σ}
  {b : Branch} {lost free : List NodeId} {high : Nat}

theorem inNamespace_of_isOwned {ns : FileId} {k : Key} (h : IsOwned ns k) : k.InNamespace ns := by
  rcases h with ⟨id, f, rfl⟩ | rfl | rfl | rfl | rfl | ⟨slot, rfl⟩ <;> rfl

theorem not_isOwned_orders (ns : FileId) : ¬ IsOwned ns (.orders ns) := by
  rintro (⟨id, f, he⟩ | he | he | he | he | ⟨slot, he⟩) <;> cases he

theorem Agrees.frame {c c' : Contents} {P : Key → Prop} (h : t.Agrees c)
    (hc : Contents.Changes P c c') (hP : ¬ P (.orders t.ns)) : t.Agrees c' := by
  unfold Agrees at *
  rwa [hc.read_eq hP]

theorem served_of_shows {c : Contents} (shows : f.Shows view c)
    (stored : StoredBeside t c lost b d free high) (agrees : t.Agrees c) (issued : high ≤ n) :
    ServedBeside t view n lost d f b free high := by
  obtain rfl := shows.contents
  exact ⟨shows, stored, agrees, issued⟩

/-- A run starts with the empty tree. -/
theorem served_start {c : Contents} (shows : f.Shows view c)
    (empty : ∀ k : Key, k.InNamespace t.ns → c k.text.toUTF8 = none) :
    Served t view 0 [] f .leaf [] 0 := by
  refine served_of_shows shows (Untouched.stored fun k hk => empty k (inNamespace_of_isOwned hk))
    (Or.inl ?_) (Nat.le_refl 0)
  rw [Contents.read, empty (.orders t.ns) rfl]

/-- A call that succeeds on the contents of a served tree succeeds on the field store. -/
theorem ServedBeside.perform {α : Type} {s : Script α} {a : α} {c' : Contents}
    (h : ServedBeside t view n lost d f b free high)
    (run : s.run (view.contents f.store) = .ok a c')
    (takes : view.TakesAll (s.writes (view.contents f.store))) :
    ∃ f', FieldStore.perform s f = .ok a f' ∧ f'.Shows view c' :=
  FieldStore.perform_ok h.shows run takes

/-- Inserting succeeds, and does to the entries what it does to the dictionary. -/
theorem ServedBeside.insert (h : ServedBeside t view n lost d f b free high) {key : List String}
    {value : String} (arity : key.length = t.arity)
    (takes : view.TakesAll ((t.insert key value).writes (view.contents f.store)))
    (few : n + 1 + 1 < Word.size64) :
    ∃ f' b' free' high', FieldStore.perform (t.insert key value) f = .ok () f' ∧
      ServedBeside t view (n + 1) lost (d.insert t.orders key value) f' b' free' high' := by
  have issued := h.issued
  obtain ⟨c', b', free', high', run, stored, bound, changes⟩ :=
    h.stored.run_insert value arity (by omega)
  obtain ⟨f', performed, shows⟩ := h.perform run takes
  exact ⟨f', b', free', high', performed, served_of_shows shows stored
    (h.agrees.frame changes (not_isOwned_orders t.ns)) (by omega)⟩

/-- Deleting succeeds, says whether the key was there, and takes out its entry. -/
theorem ServedBeside.delete (h : ServedBeside t view n lost d f b free high) {key : List String}
    (arity : key.length = t.arity)
    (takes : view.TakesAll ((t.delete key).writes (view.contents f.store)))
    (few : n + 1 < Word.size64) :
    ∃ f' b' free', FieldStore.perform (t.delete key) f = .ok (d.contains t.orders key) f' ∧
      ServedBeside t view n lost (d.erase t.orders key) f' b' free' high := by
  have issued := h.issued
  obtain ⟨c', b', free', run, stored, changes⟩ := h.stored.run_delete arity (by omega)
  obtain ⟨f', performed, shows⟩ := h.perform run takes
  exact ⟨f', b', free', performed, served_of_shows shows stored
    (h.agrees.frame changes (not_isOwned_orders t.ns)) issued⟩

/-- Opening again succeeds, with the same tree. -/
theorem ServedBeside.reopen (h : ServedBeside t view n lost d f b free high)
    (takes : view.TakesAll ((openRecorded t.ns t.orders).writes (view.contents f.store))) :
    ∃ f', FieldStore.perform (openRecorded t.ns t.orders) f = .ok t f' ∧
      ServedBeside t view n lost d f' b free high := by
  obtain ⟨c', run, agrees, changes⟩ := run_openRecorded h.agrees
  obtain ⟨f', performed, shows⟩ := h.perform run takes
  refine ⟨f', performed, served_of_shows shows (h.stored.frame changes ?_) agrees h.issued⟩
  rintro k rfl
  exact not_isOwned_orders t.ns

/-- What spares the namespace keeps the tree. -/
theorem ServedBeside.other (h : ServedBeside t view n lost d f b free high) {s : Script Unit}
    (spares : s.Spares (Key.InNamespace t.ns))
    (takes : view.TakesAll (s.writes (view.contents f.store))) :
    ServedBeside t view n lost d (leftBy (FieldStore.perform s f)) b free high := by
  have changes := spares.changes (view.contents f.store)
  have shows := FieldStore.perform_left h.shows takes
  refine served_of_shows shows (h.stored.frame changes ?_) (h.agrees.frame changes ?_) h.issued
  · exact fun k hk ho => hk (inNamespace_of_isOwned ho)
  · exact fun hk => hk rfl

/-- Every move keeps the invariant. -/
theorem ServedBeside.step (h : ServedBeside t view n lost d f b free high) {m : Move}
    (allowed : m.Allowed t) (takes : view.TakesAll (m.writes t (view.contents f.store)))
    (few : n + m.inserts + 1 < Word.size64) :
    ∃ b' free' high', ServedBeside t view (n + m.inserts) lost (m.onDictionary t d) (m.apply t f)
      b' free' high' := by
  cases m with
  | insert key value =>
    obtain ⟨f', b', free', high', performed, served⟩ := h.insert allowed takes few
    refine ⟨b', free', high', ?_⟩
    rw [Move.apply, performed]
    exact served
  | delete key =>
    obtain ⟨f', b', free', performed, served⟩ := h.delete allowed takes few
    refine ⟨b', free', high, ?_⟩
    rw [Move.apply, performed]
    exact served
  | reopen =>
    obtain ⟨f', performed, served⟩ := h.reopen takes
    refine ⟨b, free, high, ?_⟩
    rw [Move.apply, performed]
    exact served
  | other s => exact ⟨b, free, high, h.other allowed takes⟩
  | clearCache =>
    exact ⟨b, free, high, served_of_shows h.shows.clearCache h.stored h.agrees h.issued⟩
  | flush =>
    obtain ⟨f', shows, flushed⟩ := FieldStore.flush_shows h.shows
    refine ⟨b, free, high, ?_⟩
    rw [Move.apply, flushed]
    exact served_of_shows shows h.stored h.agrees h.issued

/-- Along every run with fewer than 2⁶⁴ - 1 inserts the tree is served. -/
theorem Reachable.served (h : Reachable t view n d f) (few : n + 1 < Word.size64) :
    ∃ b free high, Served t view n d f b free high := by
  induction h with
  | start shows empty => exact ⟨.leaf, [], 0, served_start shows empty⟩
  | step m _ allowed takes ih =>
    -- Before the move there were no more inserts than behind it.
    obtain ⟨b, free, high, served⟩ := ih (by omega)
    exact served.step allowed takes few

/-! ### Answers -/

/-- A query of a served tree answers from the contents. -/
theorem ServedBeside.query {α : Type} {s : Script α} {a : α}
    (h : ServedBeside t view n lost d f b free high)
    (reads : s.Reads) (run : s.run (view.contents f.store) = .ok a (view.contents f.store)) :
    ∃ f', FieldStore.perform s f = .ok a f' := by
  obtain ⟨f', performed, -⟩ := h.perform run (reads.takesAll view _)
  exact ⟨f', performed⟩

/-- What the tree answers is what the dictionary answers. -/
structure Answers (t : Tree) (d : Dictionary) (f : FieldStore σ) : Prop where
  get : ∀ key : List String, key.length = t.arity →
    ∃ f', FieldStore.perform (t.get key) f = .ok (d.get? t.orders key) f'
  contains : ∀ key : List String, key.length = t.arity →
    ∃ f', FieldStore.perform (t.contains key) f = .ok (d.contains t.orders key) f'
  size : ∃ f', FieldStore.perform (Tree.size t.ns) f = .ok d.length f'
  isEmpty : ∃ f', FieldStore.perform t.isEmpty f = .ok d.isEmpty f'
  entries : ∃ f', FieldStore.perform t.entries f = .ok d f'
  keys : ∃ f', FieldStore.perform t.keys f = .ok (d.map Prod.fst).flatten f'
  top : ∀ n, ∃ f', FieldStore.perform (t.top n) f = .ok ((d.reverse.take n).map Prod.snd) f'

theorem ServedBeside.answers (h : ServedBeside t view n lost d f b free high)
    (few : n + 1 < Word.size64) : Answers t d f := by
  have small : high ≤ walkBound := by
    have := h.issued
    rw [walkBound]
    omega
  exact {
    get := fun key arity => h.query (asks_get_payload t key).reads (h.stored.run_get arity small)
    contains := fun key arity =>
      h.query (asks_contains t key).reads (h.stored.run_contains arity small)
    size := h.query (asks_size t.ns).reads h.stored.run_size
    isEmpty := h.query (asks_isEmpty t).reads h.stored.run_isEmpty
    entries := h.query (asks_entries t).reads (h.stored.run_entries small)
    keys := h.query (asks_keys t).reads (h.stored.run_keys small)
    top := fun n => h.query (asks_top t n).reads (h.stored.run_top small n) }

/-- Along every run, the tree is the ordered dictionary that its calls have made. All queries answer
from it, and its keys strictly increase. The next call succeeds: an insert replaces just the payload
of a key that is there, and adds a new key; a delete says whether the key was there, and takes out
just its entry; opening again gives the same tree. -/
theorem answers_as_dictionary (h : Reachable t view n d f) (few : n + 1 < Word.size64) :
    Answers t d f ∧ d.Sorted t.orders ∧
      (∀ key value, key.length = t.arity → n + 1 + 1 < Word.size64 →
        view.TakesAll ((t.insert key value).writes (view.contents f.store)) →
        ∃ f', FieldStore.perform (t.insert key value) f = .ok () f' ∧
          Answers t (d.insert t.orders key value) f' ∧
          (d.contains t.orders key = true → d.insert t.orders key value =
            d.map fun e => if Dictionary.isAt t.orders key e then (e.1, value) else e) ∧
          (d.contains t.orders key = false →
            (d.insert t.orders key value).Perm ((key, value) :: d))) ∧
      (∀ key, key.length = t.arity →
        view.TakesAll ((t.delete key).writes (view.contents f.store)) →
        ∃ f', FieldStore.perform (t.delete key) f = .ok (d.contains t.orders key) f' ∧
          Answers t (d.filter fun e => !Dictionary.isAt t.orders key e) f') ∧
      (view.TakesAll ((openRecorded t.ns t.orders).writes (view.contents f.store)) →
        ∃ f', FieldStore.perform (openRecorded t.ns t.orders) f = .ok t f' ∧ Answers t d f') := by
  obtain ⟨b, free, high, served⟩ := h.served few
  have sorted := served.stored.kept.sorted
  refine ⟨served.answers few, sorted, ?_, ?_, ?_⟩
  · intro key value arity more takes
    obtain ⟨f', b', free', high', performed, served'⟩ := served.insert arity takes more
    exact ⟨f', performed, served'.answers more, sorted.insert_of_contains arity value,
      fun absent => (sorted.insert_of_not_contains arity value absent).1⟩
  · intro key arity takes
    obtain ⟨f', b', free', performed, served'⟩ := served.delete arity takes few
    exact ⟨f', performed, served'.answers few⟩
  · intro takes
    obtain ⟨f', performed, served'⟩ := served.reopen takes
    exact ⟨f', performed, served'.answers few⟩

/-- A run under the ascending order: the key `01` compares equal to `1`, so inserting it replaces
the payload and keeps `1`. -/
theorem answers_after_replacement :
    ∃ f, Reachable ⟨1, [.asc], by simp⟩ Memory.view 3 [(["1"], "c")] f ∧
      Answers ⟨1, [.asc], by simp⟩ [(["1"], "c")] f := by
  have start : Reachable ⟨1, [.asc], by simp⟩ Memory.view 0 [] { store := Memory.empty } :=
    .start (c := Memory.view.contents Memory.empty) ⟨trivial, rfl, fun _ _ h => nomatch h⟩
      fun _ _ => rfl
  have inserts := ((start.step (.insert ["2"] "b") rfl fun _ _ => trivial).step
    (.insert ["1"] "a") rfl fun _ _ => trivial).step (.insert ["01"] "c") rfl fun _ _ => trivial
  have run := inserts.step (.delete ["2"]) rfl fun _ _ => trivial
  have left : Move.onDictionary ⟨1, [.asc], by simp⟩ (Move.onDictionary ⟨1, [.asc], by simp⟩
      (Move.onDictionary ⟨1, [.asc], by simp⟩ (Move.onDictionary ⟨1, [.asc], by simp⟩ []
        (.insert ["2"] "b")) (.insert ["1"] "a")) (.insert ["01"] "c")) (.delete ["2"]) =
      [(["1"], "c")] := by
    decide +kernel
  rw [left] at run
  exact ⟨_, run, (answers_as_dictionary run (by decide)).1⟩

/-! ### The stored shape -/

/-- The key of one node comes before the key of another. -/
def Precedes (t : Tree) (c : Contents) (id id' : NodeId) : Prop :=
  ∃ e e', Node.Holds c t.ns id e ∧ Node.Holds c t.ns id' e' ∧ e.1.length = t.arity ∧
    e'.1.length = t.arity ∧ KeyOrder.compareKeys t.orders e.1 e'.1 = .lt

/-- At every node, the keys on the left come before its own, and its own before those on the
right. -/
def Ordered (t : Tree) (c : Contents) : Branch → Prop
  | .leaf => True
  | .node l f r =>
    (∀ id ∈ l.ids, t.Precedes c id f.id) ∧ (∀ id ∈ r.ids, t.Precedes c f.id id) ∧
      t.Ordered c l ∧ t.Ordered c r

theorem Entries.exists_holds {c : Contents} {ns : FileId} {ids : List NodeId} {d : Dictionary}
    (h : Entries c ns ids d) {id : NodeId} (hid : id ∈ ids) : ∃ e ∈ d, Node.Holds c ns id e := by
  induction h with
  | nil => cases hid
  | cons here _ ih =>
    rcases List.mem_cons.1 hid with rfl | hid
    · exact ⟨_, List.mem_cons_self, here⟩
    · obtain ⟨e, he, holds⟩ := ih hid
      exact ⟨e, List.mem_cons_of_mem _ he, holds⟩

/-- Where the entries of a branch increase from left to right, it is a search tree. -/
theorem ordered_of_entries {c : Contents} {b : Branch} {d : Dictionary}
    (h : Entries c t.ns b.ids d) (sorted : d.Sorted t.orders) : t.Ordered c b := by
  induction b generalizing d with
  | leaf => trivial
  | node l f r ihl ihr =>
    obtain ⟨dl, rest, rfl, left, rest'⟩ := Entries.of_append h
    obtain ⟨e, dr, rfl, here, right⟩ := Entries.of_cons rest'
    have around := sorted.around
    have arity := sorted.arity e (by simp)
    refine ⟨?_, ?_, ?_, ?_⟩
    · intro id hid
      obtain ⟨e', he', holds⟩ := left.exists_holds hid
      refine ⟨e', e, holds, here, sorted.arity e' (by simp [he']), arity, ?_⟩
      rw [KeyOrder.compareKeys_swap, around.pre_lt e' he']
      rfl
    · intro id hid
      obtain ⟨e', he', holds⟩ := right.exists_holds hid
      exact ⟨e, e', here, holds, arity, sorted.arity e' (by simp [he']), around.lt_post e' he'⟩
    · exact ihl left (sorted.sublist (List.sublist_append_left _ _))
    · exact ihr right (sorted.sublist ((List.sublist_cons_self e dr).trans
        (List.sublist_append_right _ _)))

/-- Along every run, the stored fields make up a balanced search tree without shared nodes: links
and parent links agree, heights and balance factors are right, the size is the number of nodes, and
the ids of the nodes and the free ids are together the numbers up to the largest one issued. -/
theorem stored_shape_sound (h : Reachable t view n d f) (few : n + 1 < Word.size64) :
    ∃ (b : Branch) (free : List NodeId) (high : Nat),
      (view.contents f.store).root? t.ns = some b.link ∧
      b.StoredIn (view.contents f.store) t.ns none ∧ b.ids.Nodup ∧ b.Balanced ∧
      t.Ordered (view.contents f.store) b ∧
      (view.contents f.store).count? (.size t.ns) = some b.ids.length ∧
      IdPool.StoredIn (view.contents f.store) t.ns free high ∧
      (b.ids ++ free).Nodup ∧ (b.ids ++ free).Perm (List.range' 1 high) := by
  obtain ⟨b, free, high, served⟩ := h.served few
  have stored := served.stored
  refine ⟨b, free, high, stored.shape.trail, stored.shape.branch, stored.shape.nodup,
    stored.balanced, ordered_of_entries stored.kept.entries stored.kept.sorted, ?_,
    stored.kept.pool, stored.kept.covers.nodup, stored.kept.covers⟩
  rw [stored.kept.entries.length_eq]
  exact stored.size

/-- A run that makes two nodes and frees one of them leaves one node and one free id. -/
theorem stored_shape_after_delete :
    ∃ d f b free high, Reachable ⟨1, [.asc], by simp⟩ Memory.view 2 d f ∧
      Branch.StoredIn (Memory.view.contents f.store) 1 none b ∧ b.Balanced ∧
      (b.ids ++ free).Perm (List.range' 1 high) := by
  have start : Reachable ⟨1, [.asc], by simp⟩ Memory.view 0 [] { store := Memory.empty } :=
    .start (c := Memory.view.contents Memory.empty) ⟨trivial, rfl, fun _ _ h => nomatch h⟩
      fun _ _ => rfl
  have inserts := (start.step (.insert ["2"] "b") rfl fun _ _ => trivial).step
    (.insert ["1"] "a") rfl fun _ _ => trivial
  have run := inserts.step (.delete ["2"]) rfl fun _ _ => trivial
  obtain ⟨b, free, high, -, branch, -, balanced, -, -, -, -, ids⟩ :=
    stored_shape_sound run (by decide)
  exact ⟨_, _, b, free, high, run, branch, balanced, ids⟩

end Tree

end FlatStore
