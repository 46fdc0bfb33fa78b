import FlatStore.Proofs.IdPool
import FlatStore.Proofs.Tree.Search

/-! # Stored trees

    The invariant of a tree between two operations (`Stored`). It holds
    together a shape, the dictionary that the tree stands for, and the pool
    that its node ids come from:

    * the links of the namespace make up the shape, and it is balanced;
    * its nodes hold the entries of the dictionary in order, and the keys
      increase;
    * the stored size is the number of entries;
    * the ids of the nodes and the free ids are the numbers up to the largest
      id ever issued, each once. A call that was cut short may have lost ids
      to both (`StoredBeside`).

    A namespace that nothing was written to holds the empty tree.
-/

namespace FlatStore.Tree

/-- The keys that a tree and its pool write. -/
def IsOwned (ns : FileId) (k : Key) : Prop :=
  (∃ id, Node.IsField ns id k) ∨ k = .root ns ∨ k = .size ns ∨ IdPool.IsPool ns k

/-- The nodes `ids` hold the entries of a dictionary, and their ids come from the pool. The ids
`lost` are neither those of nodes nor free, so they will not be issued again. -/
structure Kept (t : Tree) (c : Contents) (lost ids : List NodeId) (d : Dictionary)
    (free : List NodeId) (high : Nat) : Prop where
  entries : Entries c t.ns ids d
  sorted : d.Sorted t.orders
  pool : IdPool.StoredIn c t.ns free high
  covers : IdPool.Covers (lost ++ ids) free high

/-- A tree with the shape `b` and the entries `d` is stored, and the ids `lost` are of no use to it
any more. -/
structure StoredBeside (t : Tree) (c : Contents) (lost : List NodeId) (b : Branch) (d : Dictionary)
    (free : List NodeId) (high : Nat) : Prop where
  shape : Focus c t.ns b.ids [] b
  balanced : b.Balanced
  kept : Kept t c lost b.ids d free high
  size : c.count? (.size t.ns) = some d.length

/-- A tree with the shape `b` and the entries `d` is stored, and no id is lost. -/
abbrev Stored (t : Tree) (c : Contents) (b : Branch) (d : Dictionary) (free : List NodeId)
    (high : Nat) : Prop :=
  StoredBeside t c [] b d free high

variable {t : Tree} {c c' : Contents} {lost ids free : List NodeId} {d : Dictionary} {high : Nat}
  {b : Branch} {P : Key → Prop}

/-! ### Owned keys -/

theorem isOwned_of_isField {ns : FileId} {id : NodeId} {k : Key} (h : Node.IsField ns id k) :
    IsOwned ns k :=
  Or.inl ⟨id, h⟩

theorem isOwned_of_isEntry {ns : FileId} {id : NodeId} {k : Key} (h : Node.IsEntry ns id k) :
    IsOwned ns k := by
  obtain ⟨f, -, rfl⟩ := h
  exact Or.inl ⟨id, f, rfl⟩

theorem isOwned_of_isShape {ns : FileId} {k : Key} (h : IsShape ns ids k) : IsOwned ns k := by
  rcases h with rfl | ⟨id, -, f, -, rfl⟩
  · exact Or.inr (Or.inl rfl)
  · exact Or.inl ⟨id, f, rfl⟩

theorem isOwned_of_isPool {ns : FileId} {k : Key} (h : IdPool.IsPool ns k) : IsOwned ns k :=
  Or.inr (Or.inr (Or.inr h))

theorem isOwned_size (ns : FileId) : IsOwned ns (.size ns) := Or.inr (Or.inr (Or.inl rfl))

theorem not_isShape_of_isPool {ns : FileId} {k : Key} (h : IdPool.IsPool ns k) :
    ¬ IsShape ns ids k := by
  rintro (rfl | ⟨id, -, f, -, rfl⟩)
  · exact IdPool.not_isPool_root _ _ h
  · exact IdPool.not_isPool_node _ _ _ _ h

theorem not_isPool_of_isEntry {ns : FileId} {id : NodeId} {k : Key} (h : Node.IsEntry ns id k) :
    ¬ IdPool.IsPool ns k := by
  obtain ⟨f, -, rfl⟩ := h
  simp

theorem not_isShape_of_isEntry {ns : FileId} {ids : List NodeId} {id : NodeId} {k : Key}
    (h : Node.IsEntry ns id k) : ¬ IsShape ns ids k := by
  obtain ⟨f, hf, rfl⟩ := h
  exact not_isShape_node hf

/-! ### Writes elsewhere -/

namespace Kept

/-- Changes of the shape, and of what the tree does not own, leave entries and pool alone. -/
theorem frame (h : Kept t c lost ids d free high) (hc : Contents.Changes P c c')
    (hentry : ∀ id ∈ ids, ∀ f : NodeField, ¬ f.IsShape → ¬ P (.node t.ns id f))
    (hpool : ∀ k, P k → ¬ IdPool.IsPool t.ns k) : Kept t c' lost ids d free high :=
  ⟨h.entries.frame hc hentry, h.sorted, h.pool.frame hc hpool, h.covers⟩

theorem frame_shape (h : Kept t c lost ids d free high)
    (hc : Contents.Changes (IsShape t.ns ids) c c') : Kept t c' lost ids d free high := by
  refine h.frame hc ?_ fun k hk hp => not_isShape_of_isPool hp hk
  intro id _ f hf
  exact not_isShape_node hf

/-- A lost id is that of no node. -/
theorem not_mem (h : Kept t c lost ids d free high) {id : NodeId} (mem : id ∈ lost) :
    id ∉ ids := by
  obtain ⟨used, -, -⟩ := List.nodup_append'.1 h.covers.nodup
  exact fun hid => (List.nodup_append'.1 used).2.2 mem hid

theorem length_le (h : Kept t c lost ids d free high) : ids.length ≤ high := by
  have := h.covers.length
  rw [List.length_append] at this
  omega

end Kept

/-- What a tree does not own does not matter to it. -/
theorem StoredBeside.frame (h : StoredBeside t c lost b d free high)
    (hc : Contents.Changes P c c') (hP : ∀ k, P k → ¬ IsOwned t.ns k) :
    StoredBeside t c' lost b d free high := by
  refine ⟨h.shape.frame hc fun k hk hs => hP k hk (isOwned_of_isShape hs), h.balanced,
    h.kept.frame hc ?_ fun k hk hp => hP k hk (isOwned_of_isPool hp), ?_⟩
  · exact fun id _ f _ hk => hP _ hk (isOwned_of_isField ⟨f, rfl⟩)
  · rw [hc.count?_eq fun hk => hP _ hk (isOwned_size t.ns), h.size]

/-! ### The empty tree -/

/-- Nothing was written to any key that the tree owns. -/
def Untouched (t : Tree) (c : Contents) : Prop :=
  ∀ k, IsOwned t.ns k → c k.text.toUTF8 = none

theorem Untouched.read_eq (h : Untouched t c) {k : Key} (hk : IsOwned t.ns k) :
    c.read k.text = .ok none := by
  rw [Contents.read, h k hk]

/-- An untouched namespace holds the empty tree. -/
theorem Untouched.stored (h : Untouched t c) : Stored t c .leaf [] [] 0 := by
  have root : c.root? t.ns = some none := by
    rw [Contents.root?, h.read_eq (Or.inr (Or.inl rfl))]
  have count : ∀ k, IsOwned t.ns k → c.count? k = some 0 := by
    intro k hk
    rw [Contents.count?, h.read_eq hk]
  exact ⟨⟨trivial, root, rfl, .nil⟩, trivial,
    ⟨.nil, Dictionary.sorted_nil,
      ⟨count _ (isOwned_of_isPool (Or.inl rfl)), count _ (isOwned_of_isPool (Or.inr (Or.inl rfl))),
        trivial⟩, .nil⟩, count _ (isOwned_size t.ns)⟩

/-! ### Looking keys up -/

variable {key : List String}

theorem run_checkKey (c : Contents) (h : key.length = t.arity) :
    (t.checkKey key).run c = .ok () c := by
  rw [checkKey, if_pos h]
  rfl

namespace StoredBeside

theorem run_size (h : StoredBeside t c lost b d free high) :
    (Tree.size t.ns).run c = .ok d.length c :=
  Script.run_count h.size

theorem run_place (h : StoredBeside t c lost b d free high)
    (arity : key.length = t.orders.length) (small : high ≤ walkBound) :
    ∃ place, (t.place key).run c = .ok place c ∧ Located t c b d key place :=
  Tree.run_place h.shape h.kept.entries h.kept.sorted arity (h.kept.length_le.trans small)

/-- The place of a key that is not there is that of a missing branch. -/
theorem run_place_absent (h : StoredBeside t c lost b d free high)
    (arity : key.length = t.orders.length) (small : high ≤ walkBound)
    (absent : d.contains t.orders key = false) :
    ∃ p pre post, (t.place key).run c = .ok (Trail.place p) c ∧ Miss t c b d key p pre post := by
  obtain ⟨place, placed, located⟩ := h.run_place arity small
  cases located with
  | found hit =>
    rw [hit.split, Dictionary.Around.contains_found hit.equal] at absent
    cases absent
  | missing miss => exact ⟨_, _, _, placed, miss⟩

/-- Finding a key: a node with it, if the dictionary has it. -/
theorem run_find (h : StoredBeside t c lost b d free high)
    (arity : key.length = t.orders.length) (small : high ≤ walkBound) :
    (∃ p l f r pre e post, (t.find key).run c = .ok (some f.id) c ∧
      Hit t c b d key p l f r pre e post) ∨
    (∃ p pre post, (t.find key).run c = .ok none c ∧ Miss t c b d key p pre post) := by
  obtain ⟨place, run, located⟩ := h.run_place arity small
  cases located with
  | found hit =>
    refine Or.inl ⟨_, _, _, _, _, _, _, ?_, hit⟩
    rw [find, Script.run_bind_ok run]
    rfl
  | @missing p _ _ miss =>
    refine Or.inr ⟨_, _, _, ?_, miss⟩
    rw [find, Script.run_bind_ok run]
    cases p <;> rfl

/-- The payload of a key is that of the dictionary. -/
theorem run_get (h : StoredBeside t c lost b d free high) (arity : key.length = t.arity)
    (small : high ≤ walkBound) : (t.get key).run c = .ok (d.get? t.orders key) c := by
  rw [get, Script.run_bind_ok (run_checkKey c arity)]
  rcases h.run_find arity small with
    ⟨p, l, f, r, pre, e, post, run, hit⟩ | ⟨p, pre, post, run, miss⟩
  · rw [Script.run_bind_ok run]
    simp only
    rw [Script.run_bind_ok (Node.run_data hit.here), hit.split, hit.around.get?_found hit.equal]
    rfl
  · rw [Script.run_bind_ok run, miss.split, miss.around.get?_absent]
    rfl

/-- A key is there exactly if the dictionary has it. -/
theorem run_contains (h : StoredBeside t c lost b d free high) (arity : key.length = t.arity)
    (small : high ≤ walkBound) : (t.contains key).run c = .ok (d.contains t.orders key) c := by
  rw [contains, Script.run_bind_ok (run_checkKey c arity)]
  rcases h.run_find arity small with
    ⟨p, l, f, r, pre, e, post, run, hit⟩ | ⟨p, pre, post, run, miss⟩
  · rw [Script.run_bind_ok run, hit.split, Dictionary.Around.contains_found hit.equal]
    rfl
  · rw [Script.run_bind_ok run, miss.split, miss.around.contains_absent]
    rfl

/-- The tree is empty exactly if the dictionary is. -/
theorem run_isEmpty (h : StoredBeside t c lost b d free high) :
    (t.isEmpty).run c = .ok d.isEmpty c := by
  rw [isEmpty, Script.run_bind_ok (run_root h.shape.trail)]
  have length := h.kept.entries.length_eq
  cases b with
  | leaf =>
    have : d = [] := Entries.nil_iff.1 h.kept.entries
    rw [this]
    rfl
  | node l f r =>
    cases d with
    | nil => simp at length
    | cons => rfl

/-- The height is that of the shape. -/
theorem run_height (h : StoredBeside t c lost b d free high) :
    (t.height).run c = .ok b.height c := by
  rw [height, Script.run_bind_ok (run_root h.shape.trail)]
  exact Node.run_height h.shape.branch

end StoredBeside

end FlatStore.Tree
