import FlatStore.Proofs.Named
import FlatStore.Proofs.Tree.Footprint
import FlatStore.Proofs.Tree.Orders
import FlatStore.Proofs.Tree.Run
import FlatStore.Proofs.Command

/-! # The catalog of recorded trees

    What requests on trees give is said by a catalog: for each namespace with
    recorded orders, the orders and an ordered dictionary under them. A
    namespace without recorded orders counts as empty, and only inserting
    records orders.

    * **Invariant**: the fields of each structure are as the catalog has it, and
      counters and lists are readable (`Catalog.Holds`).
    * **Opening**: a tree is opened under the orders of the catalog
      (`HoldsIn.run_openFor`).
    * **Step**: a request whose orders do not suit the recorded ones is refused
      and changes nothing; every other one gives what the catalog says, and
      keeps the invariant (`HoldsIn.refuses`, `HoldsIn.serves`).
-/

namespace FlatStore

/-! ### Catalogs -/

/-- A tree with recorded orders. -/
structure Shelf where
  orders : List KeyOrder
  entries : Dictionary

/-- The trees with recorded orders, by their namespaces. -/
abbrev Catalog := FileId → Option Shelf

/-- The namespace whose tree a request opens, the orders on its line, and the number of components
of its key. -/
def Request.opens? : Request → Option (FileId × Option (List KeyOrder) × Nat)
  | .treeInsert ns orders key _ | .treeDelete ns orders key | .treeGet ns orders key =>
    some (ns, orders, key.length)
  | .treeList ns orders => some (ns, orders, 0)
  | .treeTop ns _ | .treeSize ns => some (ns, none, 0)
  | _ => none

namespace Catalog

variable (k : Catalog)

/-- The orders of a namespace. -/
def orders (ns : FileId) : List KeyOrder := ((k ns).map Shelf.orders).getD []

/-- The entries of a namespace, none without recorded orders. -/
def entries (ns : FileId) : Dictionary := ((k ns).map Shelf.entries).getD []

/-- The catalog with another tree in a namespace. -/
def set (ns : FileId) (s : Shelf) : Catalog := fun ns' => if ns' = ns then some s else k ns'

/-- A request is refused if its orders or the length of its key do not suit the recorded orders. -/
def Refuses (r : Request) : Prop :=
  ∃ ns requested arity s, r.opens? = some (ns, requested, arity) ∧ k ns = some s ∧
    ¬ Tree.Suits s.orders requested arity

/-- What a request on a tree gives when it is not refused. -/
def answer? : Request → Option Output
  | .treeInsert .. => some .ok
  | .treeDelete ns _ key => some (.bool ((k.entries ns).contains (k.orders ns) key))
  | .treeGet ns _ key => some (Request.ofText? ((k.entries ns).get? (k.orders ns) key))
  | .treeList ns _ => some (.list ((k.entries ns).map Request.entryLine))
  | .treeTop ns n => some (.list (((k.entries ns).reverse.take n).map Prod.snd))
  | .treeSize ns => some (.integer (k.entries ns).length)
  | _ => none

/-- The catalog behind a request that is not refused. The first insert into a namespace records the
orders on its line, or `lex` for each component. -/
def after : Request → Catalog
  | .treeInsert ns requested key data =>
    let orders := ((k ns).map Shelf.orders).getD (Tree.ordersFor requested key.length)
    k.set ns ⟨orders, (k.entries ns).insert orders key data⟩
  | .treeDelete ns _ key =>
    match k ns with
    | some s => k.set ns { s with entries := s.entries.erase s.orders key }
    | none => k
  | _ => k

variable {k} {ns : FileId} {s : Shelf}

theorem entries_of_some (h : k ns = some s) : k.entries ns = s.entries := by
  rw [entries, h]
  rfl

theorem entries_of_none (h : k ns = none) : k.entries ns = [] := by
  rw [entries, h]
  rfl

theorem orders_of_some (h : k ns = some s) : k.orders ns = s.orders := by
  rw [orders, h]
  rfl

theorem set_self (k : Catalog) (ns : FileId) (s : Shelf) : k.set ns s ns = some s := if_pos rfl

theorem set_of_ne {ns' : FileId} (other : ns' ≠ ns) : k.set ns s ns' = k ns' := if_neg other

end Catalog

/-! ### What the fields hold -/

/-- The tree of a namespace is stored under its recorded orders, and at most `n` ids were ever
issued there. Some of them may be lost to the tree. -/
structure Shelf.StoredIn (s : Shelf) (c : Contents) (ns : FileId) (n : Nat) : Prop where
  some_orders : s.orders ≠ []
  recorded : c.read (Key.orders ns).text = .ok (some (KeyOrder.joinList s.orders))
  tree : ∃ lost b free high,
    Tree.StoredBeside ⟨ns, s.orders, some_orders⟩ c lost b s.entries free high ∧ high ≤ n

/-- Nothing was written to the namespace. -/
def Contents.Blank (c : Contents) (ns : FileId) : Prop :=
  ∀ k : Key, k.owner = .space ns → c k.text.toUTF8 = none

/-- The fields of a structure are as the catalog has it after `n` requests. -/
def Catalog.Holds (k : Catalog) (n : Nat) (c : Contents) : Structure → Prop
  | .map name => ∃ found, c.read (Key.map name).text = .ok found
  | .counter id extra => ∃ value, Counter.StoredIn c id extra value
  | .list id name => ∃ values, IntList.StoredIn c id name values
  | .flags id joined => ∀ name extra, name ++ Key.optional extra = joined →
    ∃ found, c.read (Key.flag id name extra).text = .ok found
  | .space ns => (∀ s ∈ k ns, s.StoredIn c ns n) ∧ (k ns = none → c.Blank ns)

/-- The fields of all structures are as the catalog has it after `n` requests. -/
def Catalog.HoldsIn (k : Catalog) (n : Nat) (c : Contents) : Prop := ∀ S, k.Holds n c S

variable {k k' : Catalog} {n n' : Nat} {c c' : Contents} {ns : FileId} {s : Shelf}

/-- In an empty store no orders are recorded. -/
theorem Catalog.holdsIn_empty : HoldsIn (fun _ => none) 0 fun _ => none := by
  intro S
  cases S with
  | map name => exact ⟨none, rfl⟩
  | counter id extra => exact ⟨0, ⟨⟨by decide, by decide⟩, Or.inl ⟨rfl, rfl⟩⟩⟩
  | list id name => exact ⟨[], ⟨by simp, Or.inl ⟨rfl, rfl⟩⟩⟩
  | flags id joined => exact fun _ _ _ => ⟨none, rfl⟩
  | space ns => exact ⟨by simp, fun _ _ _ => rfl⟩

theorem Catalog.holds_of_some (there : k ns = some s) (stored : s.StoredIn c ns n) :
    k.Holds n c (.space ns) := by
  refine ⟨?_, fun absent => absurd (there.symm.trans absent) (by simp)⟩
  intro s' hs'
  cases there.symm.trans hs'
  exact stored

/-! ### Writes elsewhere -/

theorem Tree.owner_of_isOwned {key : Key} (h : IsOwned ns key) : key.owner = .space ns := by
  have inside := inNamespace_of_isOwned h
  cases key <;> cases inside <;> rfl

theorem Contents.AgreeOn.changes {S : Structure} (h : AgreeOn S c c') :
    Changes (fun key => key.owner ≠ S) c c' :=
  fun key hkey => (h key (Classical.not_not.1 hkey)).symm

theorem Shelf.StoredIn.frame (h : s.StoredIn c ns n) (agree : Contents.AgreeOn (.space ns) c c')
    (le : n ≤ n') : s.StoredIn c' ns n' := by
  obtain ⟨lost, b, free, high, stored, bound⟩ := h.tree
  refine ⟨h.some_orders, ?_, lost, b, free, high, ?_, by omega⟩
  · rw [← agree.read_eq rfl]
    exact h.recorded
  · exact stored.frame agree.changes fun key hkey owned => hkey (Tree.owner_of_isOwned owned)

/-- What is written elsewhere does not matter to a structure. -/
theorem Catalog.Holds.frame {S : Structure} (h : k.Holds n c S) (agree : Contents.AgreeOn S c c')
    (le : n ≤ n') (same : ∀ ns, S = .space ns → k' ns = k ns) : k'.Holds n' c' S := by
  cases S with
  | map name =>
    obtain ⟨found, read⟩ := h
    exact ⟨found, (agree.read_eq rfl).symm.trans read⟩
  | counter id extra =>
    obtain ⟨value, fits, field⟩ := h
    rw [agree.read_eq (k := .counter id extra) rfl] at field
    exact ⟨value, fits, field⟩
  | list id name =>
    obtain ⟨values, fits, field⟩ := h
    rw [agree.read_eq (k := .list id name) rfl] at field
    exact ⟨values, fits, field⟩
  | flags id joined =>
    intro name extra hjoined
    obtain ⟨found, read⟩ := h name extra hjoined
    refine ⟨found, ?_⟩
    rw [← agree.read_eq (k := .flag id name extra) (by rw [Key.owner, hjoined])]
    exact read
  | space ns =>
    rw [Holds, same ns rfl]
    refine ⟨fun s hs => (h.1 s hs).frame agree le, fun hn key hkey => ?_⟩
    rw [← agree key hkey]
    exact h.2 hn key hkey

/-- A flag is readable whatever was written to it. -/
theorem Catalog.Holds.put_flag {id : FileId} {joined : String}
    (h : k.Holds n c (.flags id joined)) (name : String) (extra : Option String) (value : String) :
    k.Holds (n + 1) (c.put (Key.flag id name extra).text value) (.flags id joined) := by
  intro name' extra' hjoined
  rw [Contents.read_put]
  split
  · exact ⟨some value, rfl⟩
  · exact h name' extra' hjoined

namespace Catalog.HoldsIn

/-- A request that only touches one structure has to keep that one. -/
theorem step (h : k.HoldsIn n c) {T : Structure}
    (others : ∀ S, T ≠ S → Contents.AgreeOn S c c')
    (same : ∀ ns, T ≠ .space ns → k' ns = k ns) (here : k'.Holds (n + 1) c' T) :
    k'.HoldsIn (n + 1) c' := by
  intro S
  by_cases target : T = S
  · rw [← target]
    exact here
  · refine (h S).frame (others S target) (by omega) ?_
    rintro ns rfl
    exact same ns target

theorem idle (h : k.HoldsIn n c) : k.HoldsIn (n + 1) c := by
  intro S
  exact (h S).frame (fun _ _ => rfl) (by omega) fun _ _ => rfl

end Catalog.HoldsIn

/-! ### Opening trees -/

variable {requested : Option (List KeyOrder)} {arity : Nat} {t : Tree}

/-- A tree opened in a namespace has the orders and the entries of the catalog. -/
structure Catalog.Opened (k : Catalog) (n : Nat) (c : Contents) (ns : FileId)
    (requested : Option (List KeyOrder)) (arity : Nat) (t : Tree) : Prop where
  ns_eq : t.ns = ns
  orders_eq : t.orders = ((k ns).map Shelf.orders).getD (Tree.ordersFor requested arity)
  arity_eq : 0 < arity → arity = t.arity
  tree : ∃ lost b free high, Tree.StoredBeside t c lost b (k.entries ns) free high ∧ high ≤ n

theorem Contents.Blank.read_eq (h : c.Blank ns) {key : Key} (owned : key.owner = .space ns) :
    c.read key.text = .ok none := by
  rw [Contents.read, h key owned]

/-- A tree is opened under the recorded orders, or else under those that the line stands for. Only
on demand, these become the recorded ones. -/
theorem Catalog.HoldsIn.run_openFor (h : k.HoldsIn n c)
    (some_orders : Tree.ordersFor requested arity ≠ [])
    (fit : 0 < arity → (Tree.ordersFor requested arity).length = arity)
    (suits : ∀ s ∈ k ns, Tree.Suits s.orders requested arity) (record : Bool) :
    ∃ t c', (Tree.openFor ns requested arity record).run c = .ok t c' ∧
      k.Opened n c' ns requested arity t ∧ (record = false → c' = c) ∧
      (record = true →
        c'.read (Key.orders t.ns).text = .ok (some (KeyOrder.joinList t.orders))) := by
  cases shelf : k ns with
  | some s =>
    have stored := (h (.space ns)).1 s shelf
    have suited := suits s shelf
    refine ⟨⟨ns, s.orders, stored.some_orders⟩, c, ?_, ⟨rfl, ?_, ?_, ?_⟩, fun _ => rfl,
      fun _ => stored.recorded⟩
    · exact Tree.run_openFor_recorded stored.some_orders suited
        (Tree.run_recordedOrders_there stored.some_orders stored.recorded)
    · rw [shelf]
      rfl
    · intro positive
      exact suited.2.resolve_left (by omega)
    · rw [entries_of_some shelf]
      exact stored.tree
  | none =>
    have blank := (h (.space ns)).2 shelf
    have absent : (Tree.recordedOrders ns).run c = .ok none c :=
      Tree.run_recordedOrders_absent (blank.read_eq rfl)
    have untouched : Tree.Untouched ⟨ns, Tree.ordersFor requested arity, some_orders⟩ c :=
      fun key owned => blank key (Tree.owner_of_isOwned owned)
    refine ⟨⟨ns, Tree.ordersFor requested arity, some_orders⟩, _,
      Tree.run_openFor_fresh some_orders fit absent, ⟨rfl, ?_, fun positive => (fit positive).symm,
      [], .leaf, [], 0, ?_, Nat.zero_le n⟩, ?_, ?_⟩
    · rw [shelf]
      rfl
    · -- Recording the orders does not touch the tree, which is empty.
      rw [entries_of_none shelf]
      cases record with
      | false => exact untouched.stored
      | true =>
        refine untouched.stored.frame (.single c (.orders ns) _) ?_
        rintro key rfl
        exact Tree.not_isOwned_orders ns
    · rintro rfl
      rfl
    · rintro rfl
      rw [if_pos rfl, Contents.read_put, if_pos rfl]

/-- What is read of the recorded orders. -/
theorem Catalog.HoldsIn.run_recordedOrders (h : k.HoldsIn n c) (ns : FileId) :
    (Tree.recordedOrders ns).run c = .ok ((k ns).map Shelf.orders) c := by
  cases there : k ns with
  | none => exact Tree.run_recordedOrders_absent (((h (.space ns)).2 there).read_eq rfl)
  | some s =>
    have stored := (h (.space ns)).1 s there
    exact Tree.run_recordedOrders_there stored.some_orders stored.recorded

/-- Where no orders are read, the catalog has none. -/
theorem Catalog.HoldsIn.absent_of_run (h : k.HoldsIn n c)
    (absent : (Tree.recordedOrders ns).run c = .ok none c) : k ns = none := by
  rw [h.run_recordedOrders ns] at absent
  simpa using absent

/-- Nothing is refused where no orders are recorded. -/
theorem Catalog.not_refuses_of_none (absent : k ns = none)
    (opens : r.opens? = some (ns, requested, arity)) : ¬ k.Refuses r := by
  rintro ⟨_, _, _, s, opens', there, -⟩
  rw [opens] at opens'
  cases opens'
  rw [absent] at there
  cases there

namespace Catalog.Opened

variable (h : k.Opened n c ns requested arity t)
include h

theorem known (there : k ns = some s) : t.orders = s.orders := by
  rw [h.orders_eq, there]
  rfl

/-- Asking the tree is asking the catalog: a namespace without recorded orders has no entries. -/
theorem asked {β : Type} (ask : List KeyOrder → Dictionary → β)
    (nothing : ∀ orders orders', ask orders [] = ask orders' []) :
    ask t.orders (k.entries ns) = ask (k.orders ns) (k.entries ns) := by
  cases there : k ns with
  | some s => rw [h.known there, orders_of_some there]
  | none => rw [entries_of_none there, nothing]

end Catalog.Opened

/-! ### Requests that are refused -/

variable {r : Request}

/-- What a request does on a tree begins with opening it. -/
theorem Request.script_of_opens (opens : r.opens? = some (ns, requested, arity)) :
    ∃ (record : Bool) (next : Tree → Script Output),
      r.script = Tree.openFor ns requested arity record >>= next := by
  cases r <;> cases opens <;> exact ⟨_, _, rfl⟩

theorem Request.orders_sound (sound : r.Sound) (opens : r.opens? = some (ns, requested, arity)) :
    (∀ orders ∈ requested, orders ≠ []) ∧
      ∀ orders ∈ requested, 0 < arity → orders.length = arity := by
  -- The orders on a line with a key are as many as its components.
  have keyed : ∀ key : List String, (key ≠ [] ∧ ∀ os ∈ requested, os.length = key.length) →
      (∀ orders ∈ requested, orders ≠ []) ∧
        ∀ orders ∈ requested, 0 < key.length → orders.length = key.length := by
    rintro key ⟨some_key, fit⟩
    refine ⟨?_, fun os hos _ => fit os hos⟩
    rintro os hos rfl
    exact some_key (List.eq_nil_of_length_eq_zero (fit [] hos).symm)
  cases r <;> cases opens
  case treeInsert key data => exact keyed key sound.2
  case treeDelete key => exact keyed key sound.2
  case treeGet key => exact keyed key sound.2
  case treeList => exact ⟨sound, fun _ _ positive => absurd positive (by omega)⟩
  case treeTop => exact ⟨by simp, by simp⟩
  case treeSize => exact ⟨by simp, by simp⟩

/-- Orders and keys that do not suit the recorded orders are refused, and nothing is written. -/
theorem Catalog.HoldsIn.refuses (h : k.HoldsIn n c) (sound : r.Sound) (refused : k.Refuses r) :
    ∃ m, r.script.run c = .error (.error (.orderMismatch m)) c := by
  obtain ⟨ns, requested, arity, s, opens, there, unsuited⟩ := refused
  obtain ⟨record, next, script⟩ := Request.script_of_opens opens
  have recorded := h.run_recordedOrders ns
  rw [there] at recorded
  have refusal : ∃ m, (Tree.openFor ns requested arity record).run c =
      .error (.error (.orderMismatch m)) c :=
    Tree.run_openFor_refused (Request.orders_sound sound opens).1 unsuited recorded
  obtain ⟨m, run⟩ := refusal
  refine ⟨m, ?_⟩
  rw [script, Script.run_bind_error run]

/-! ### Requests that are served -/

/-- A request succeeds with what the catalog says, and leaves it as the catalog says. -/
def Catalog.Serves (k : Catalog) (n : Nat) (c : Contents) (r : Request) : Prop :=
  ∃ out c', r.script.run c = .ok out c' ∧ (∀ expected ∈ k.answer? r, out = expected) ∧
    (k.after r).HoldsIn (n + 1) c'

namespace Catalog.HoldsIn

/-- A request on a named entry has to keep that entry. -/
theorem serves_within (h : k.HoldsIn n c) {S : Structure} {out : Output}
    (within : r.script.Within S) (run : r.script.run c = .ok out c')
    (here : k.Holds (n + 1) c' S) (silent : k.answer? r = none := by rfl)
    (same : k.after r = k := by rfl) : k.Serves n c r := by
  refine ⟨out, c', run, by simp [silent], ?_⟩
  rw [same]
  refine h.step (fun T other => ?_) (fun _ _ => rfl) here
  have left := within.run_other other c
  rwa [run] at left

/-- Requests on map entries, counters, flags and lists succeed. -/
theorem serves_named (h : k.HoldsIn n c) (sound : r.Sound) (named : r.opens? = none) :
    k.Serves n c r := by
  cases r with
  | mapGet key =>
    obtain ⟨found, read⟩ := h (.map key)
    have run : (Entry.read key).run c = .ok found c := Script.run_get read
    exact ⟨_, c, Script.run_map_ok run, by simp [answer?], h.idle⟩
  | mapSet key value =>
    refine h.serves_within ((Entry.within_write key value).bind fun _ => trivial) rfl
      ⟨some value, ?_⟩
    exact (Contents.read_put c _ value _).trans (if_pos rfl)
  | counterGet id extra =>
    obtain ⟨value, stored⟩ := h (.counter id extra)
    exact ⟨_, c, Script.run_map_ok stored.run_read, by simp [answer?], h.idle⟩
  | counterSet id extra value =>
    obtain ⟨c', run, stored⟩ := Counter.run_write c id extra sound
    exact h.serves_within ((Counter.within_write id extra value).bind fun _ => trivial)
      (Script.run_bind_ok run) ⟨value, stored⟩
  | counterIncrement id extra =>
    obtain ⟨value, stored⟩ := h (.counter id extra)
    obtain ⟨c', run, stored'⟩ := stored.run_add 1
    exact h.serves_within ((Counter.within_add id extra 1).map _) (Script.run_map_ok run)
      ⟨_, stored'⟩
  | counterDecrement id extra =>
    obtain ⟨value, stored⟩ := h (.counter id extra)
    obtain ⟨c', run, stored'⟩ := stored.run_add (-1)
    exact h.serves_within ((Counter.within_add id extra (-1)).map _) (Script.run_map_ok run)
      ⟨_, stored'⟩
  | flagSet id key extra =>
    exact h.serves_within ((Flag.within_set id key extra).bind fun _ => trivial) rfl
      ((h _).put_flag key extra "1")
  | flagClear id key extra =>
    exact h.serves_within ((Flag.within_clear id key extra).bind fun _ => trivial) rfl
      ((h _).put_flag key extra "0")
  | flagCheck id key extra =>
    obtain ⟨found, read⟩ := h (.flags id (key ++ Key.optional extra)) key extra rfl
    have run : (Flag.check id key extra).run c = .ok (found == some "1") c :=
      Script.run_bind_ok (Script.run_get read)
    exact ⟨_, c, Script.run_map_ok run, by simp [answer?], h.idle⟩
  | listAdd id key value =>
    obtain ⟨values, stored⟩ := h (.list id key)
    obtain ⟨c', run, stored'⟩ := stored.run_add sound
    exact h.serves_within ((IntList.within_add id key value).map _) (Script.run_map_ok run)
      ⟨_, stored'⟩
  | listRemove id key value =>
    obtain ⟨values, stored⟩ := h (.list id key)
    obtain ⟨c', run, stored'⟩ := stored.run_remove value
    exact h.serves_within ((IntList.within_remove id key value).map _) (Script.run_map_ok run)
      ⟨_, stored'⟩
  | listContains id key value =>
    obtain ⟨values, stored⟩ := h (.list id key)
    exact ⟨_, c, Script.run_map_ok (stored.run_contains value), by simp [answer?], h.idle⟩
  | listShow id key =>
    obtain ⟨values, stored⟩ := h (.list id key)
    exact ⟨_, c, Script.run_bind_ok stored.run_read, by simp [answer?], h.idle⟩
  | treeInsert | treeDelete | treeGet | treeList | treeTop | treeSize => cases named

/-- Inserting enters the key into the tree, whose orders are recorded from now on. -/
theorem serves_insert (h : k.HoldsIn n c) (few : n + 1 < Word.size64) {key : List String}
    (data : String) (some_key : key ≠ [])
    (opened : ∃ t c', (Tree.openFor ns requested key.length true).run c = .ok t c' ∧
      k.Opened n c' ns requested key.length t ∧
      c'.read (Key.orders t.ns).text = .ok (some (KeyOrder.joinList t.orders))) :
    k.Serves n c (.treeInsert ns requested key data) := by
  obtain ⟨t, c₁, run₁, tree, recorded⟩ := opened
  obtain ⟨lost, b, free, high, stored, bound⟩ := tree.tree
  obtain ⟨c₂, b', free', high', run₂, stored', bound', changes⟩ :=
    stored.run_insert data (tree.arity_eq (List.length_pos_iff.2 some_key)) (by omega)
  refine ⟨.ok, c₂, ?_, by simp [answer?], ?_⟩
  · exact (Script.run_bind_ok run₁).trans (Script.run_bind_ok run₂)
  · obtain rfl := tree.ns_eq
    refine h.step (T := .space t.ns) (fun S other => ?_) (fun ns other => ?_) ?_
    · -- Neither opening nor inserting leaves the namespace.
      have left₁ := (Tree.within_openFor t.ns requested key.length true).run_other other c
      have left₂ := (Tree.within_insert t key data).run_other other c₁
      rw [run₁] at left₁
      rw [run₂] at left₂
      exact left₁.trans left₂
    · refine set_of_ne ?_
      rintro rfl
      exact other rfl
    · refine holds_of_some (set_self k t.ns _) ?_
      rw [← tree.orders_eq]
      refine ⟨t.orders_ne_nil, ?_, lost, b', free', high', stored', by omega⟩
      rw [changes.read_eq (Tree.not_isOwned_orders t.ns)]
      exact recorded

/-- Deleting takes the key out of the tree. Without recorded orders there is nothing to delete, and
none get recorded. -/
theorem serves_delete (h : k.HoldsIn n c) (few : n < Word.size64) {key : List String}
    (some_key : key ≠ [])
    (opened : ∃ t, (Tree.openFor ns requested key.length false).run c = .ok t c ∧
      k.Opened n c ns requested key.length t) :
    k.Serves n c (.treeDelete ns requested key) := by
  obtain ⟨t, run₁, tree⟩ := opened
  obtain ⟨lost, b, free, high, stored, bound⟩ := tree.tree
  have arity := tree.arity_eq (List.length_pos_iff.2 some_key)
  have said : k.answer? (.treeDelete ns requested key) =
      some (.bool ((k.entries ns).contains t.orders key)) := by
    rw [tree.asked (fun orders d => d.contains orders key) fun _ _ => rfl]
    rfl
  cases shelf : k ns with
  | none =>
    have absent : (k.entries ns).contains t.orders key = false := by
      rw [entries_of_none shelf]
      rfl
    have run₂ := stored.run_delete_absent arity (by rw [Tree.walkBound]; omega) absent
    rw [absent] at said
    refine ⟨.bool false, c, ?_, by simp [said], ?_⟩
    · exact (Script.run_bind_ok run₁).trans (Script.run_bind_ok run₂)
    · rw [after, shelf]
      exact h.idle
  | some s =>
    obtain ⟨c₂, b', free', run₂, stored', changes⟩ := stored.run_delete arity (by omega)
    refine ⟨_, c₂, (Script.run_bind_ok run₁).trans (Script.run_bind_ok run₂), by simp [said], ?_⟩
    have recorded := ((h (.space ns)).1 s shelf).recorded
    have known := tree.known shelf
    obtain rfl := tree.ns_eq
    rw [after, shelf]
    refine h.step (T := .space t.ns) (fun S other => ?_) (fun ns other => ?_) ?_
    · have left := (Tree.within_delete t key).run_other other c
      rwa [run₂] at left
    · refine set_of_ne ?_
      rintro rfl
      exact other rfl
    · refine holds_of_some (set_self k t.ns _) ?_
      rw [← known, ← entries_of_some shelf]
      refine ⟨t.orders_ne_nil, ?_, lost, b', free', high, stored', by omega⟩
      rw [changes.read_eq (Tree.not_isOwned_orders t.ns), known]
      exact recorded

/-- Asking a tree changes nothing. -/
theorem serves_query (h : k.HoldsIn n c) {out : Output} {next : Tree → Script Output}
    (opened : ∃ t, (Tree.openFor ns requested arity false).run c = .ok t c ∧
      (next t).run c = .ok out c)
    (said : k.answer? r = some out) (same : k.after r = k := by rfl)
    (script : r.script = Tree.openFor ns requested arity false >>= next := by rfl) :
    k.Serves n c r := by
  obtain ⟨t, run₁, run₂⟩ := opened
  refine ⟨out, c, ?_, by simp [said], ?_⟩
  · rw [script, Script.run_bind_ok run₁, run₂]
  · rw [same]
    exact h.idle

/-- A request that is not refused opens its tree as the catalog has it. -/
theorem opened (h : k.HoldsIn n c) (sound : r.Sound) (accepted : ¬ k.Refuses r)
    (opens : r.opens? = some (ns, requested, arity)) (record : Bool) :
    ∃ t c', (Tree.openFor ns requested arity record).run c = .ok t c' ∧
      k.Opened n c' ns requested arity t ∧ (record = false → c' = c) ∧
      (record = true →
        c'.read (Key.orders t.ns).text = .ok (some (KeyOrder.joinList t.orders))) := by
  have suits : ∀ s ∈ k ns, Tree.Suits s.orders requested arity := by
    intro s there
    by_contra unsuited
    exact accepted ⟨ns, requested, arity, s, opens, there, unsuited⟩
  obtain ⟨some_requested, fit⟩ := Request.orders_sound sound opens
  obtain ⟨some_orders, fits⟩ := Tree.ordersFor_sound some_requested fit
  exact h.run_openFor some_orders fits suits record

/-- Requests on trees succeed with what the catalog says, unless they are refused. -/
theorem serves_tree (h : k.HoldsIn n c) (few : n + 1 < Word.half64) (sound : r.Sound)
    (accepted : ¬ k.Refuses r) (opens : r.opens? = some (ns, requested, arity)) :
    k.Serves n c r := by
  have opening := h.opened sound accepted opens
  have word : Word.half64 < Word.size64 := by decide
  have asking : ∃ t lost b free high,
      (Tree.openFor ns requested arity false).run c = .ok t c ∧
      k.Opened n c ns requested arity t ∧ Tree.StoredBeside t c lost b (k.entries ns) free high ∧
      high ≤ n := by
    obtain ⟨t, c', run, tree, same, -⟩ := opening false
    obtain rfl := same rfl
    obtain ⟨lost, b, free, high, stored, bound⟩ := tree.tree
    exact ⟨t, lost, b, free, high, run, tree, stored, bound⟩
  obtain ⟨t, lost, b, free, high, run, tree, stored, bound⟩ := asking
  have small : high ≤ Tree.walkBound := by
    rw [Tree.walkBound]
    omega
  cases r with
  | treeInsert ns' orders key data =>
    cases opens
    obtain ⟨t, c', run, tree, -, recorded⟩ := opening true
    exact h.serves_insert (by omega) data sound.2.1 ⟨t, c', run, tree, recorded rfl⟩
  | treeDelete ns' orders key =>
    cases opens
    exact h.serves_delete (by omega) sound.2.1 ⟨t, run, tree⟩
  | treeGet ns' orders key =>
    cases opens
    refine h.serves_query ⟨t, run, Script.run_bind_ok (stored.run_get (tree.arity_eq
      (List.length_pos_iff.2 sound.2.1)) small)⟩ ?_
    rw [tree.asked (fun orders d => d.get? orders key) fun _ _ => rfl]
    rfl
  | treeList ns' orders =>
    cases opens
    exact h.serves_query ⟨t, run, Script.run_bind_ok (stored.run_entries small)⟩ rfl
  | treeTop ns' m =>
    cases opens
    exact h.serves_query ⟨t, run, Script.run_bind_ok (stored.run_top small m)⟩ rfl
  | treeSize ns' =>
    cases opens
    refine h.serves_query ⟨t, run, Script.run_bind_ok stored.run_size⟩ ?_
    -- There are fewer entries than the printed number has room for.
    have nodes := stored.kept.length_le
    rw [stored.kept.entries.length_eq] at nodes
    rw [signed, if_pos (by omega)]
    rfl
  | _ => cases opens

/-- A request that is not refused succeeds with what the catalog says. -/
theorem serves (h : k.HoldsIn n c) (few : n + 1 < Word.half64) (sound : r.Sound)
    (accepted : ¬ k.Refuses r) : k.Serves n c r := by
  cases opens : r.opens? with
  | none => exact h.serves_named sound opens
  | some opened => exact h.serves_tree few sound accepted opens

end Catalog.HoldsIn

end FlatStore
