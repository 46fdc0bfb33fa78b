import FlatStore.Proofs.Contents
import FlatStore.Proofs.Tree.Branch
import FlatStore.Tree

/-! # Branches in a store

    When the fields of a namespace hold a branch: the numbers of every node,
    its links to its two children, and its link to the node above.

    * `Branch.StoredIn` is about the nodes of a branch, `Trail.StoredIn` about
      the nodes around it, down to the one link that leads to it (`slot`).
    * Both look at the shape of the tree only, so writes to other nodes, to
      payloads and to key components keep them (`frame`).
    * The accessors of `Node` give what is stored.
-/

namespace FlatStore

/-- Whether a node field belongs to the shape of the tree. -/
def NodeField.IsShape : NodeField → Prop
  | .height | .balance | .left | .right | .parent => True
  | .data | .component _ => False

@[simp]
theorem Side.isShape_field (side : Side) : side.field.IsShape := by
  cases side <;> trivial

@[simp]
theorem Side.other_other (side : Side) : side.other.other = side := by
  cases side <;> rfl

@[simp]
theorem Side.field_ne_other (side : Side) : side.field ≠ side.other.field := by
  cases side <;> decide

@[simp]
theorem Side.field_ne_parent (side : Side) : side.field ≠ .parent := by
  cases side <;> decide

@[simp]
theorem Side.field_ne_height (side : Side) : side.field ≠ .height := by
  cases side <;> decide

@[simp]
theorem Side.field_ne_balance (side : Side) : side.field ≠ .balance := by
  cases side <;> decide

@[simp]
theorem Side.other_field_ne (side : Side) : side.other.field ≠ side.field := by
  cases side <;> decide

@[simp]
theorem Side.parent_ne_field (side : Side) : NodeField.parent ≠ side.field := by
  cases side <;> decide

/-! ### Laid out fields -/

/-- The root link of a namespace; a namespace without one has no nodes. -/
def Contents.root? (c : Contents) (ns : FileId) : Option Link :=
  match c.read (Key.root ns).text with
  | .ok none => some none
  | .ok (some raw) => Link.parse? raw
  | .error _ => none

/-- The numbers of a node are stored. -/
structure Fork.StoredIn (c : Contents) (ns : FileId) (f : Fork) : Prop where
  id_lt : f.id < Word.size64
  height : c.number? (.node ns f.id .height) = some f.height
  balance : c.number? (.node ns f.id .balance) = some f.balance

/-- The nodes of a branch are stored, the topmost one below `parent`. -/
def Branch.StoredIn (c : Contents) (ns : FileId) (parent : Link) : Branch → Prop
  | leaf => True
  | node l f r =>
    f.StoredIn c ns ∧ c.link? (.node ns f.id .parent) = some parent ∧
      c.link? (.node ns f.id .left) = some l.link ∧ c.link? (.node ns f.id .right) = some r.link ∧
      l.StoredIn c ns (some f.id) ∧ r.StoredIn c ns (some f.id)

instance Fork.decidableStoredIn (c : Contents) (ns : FileId) (f : Fork) :
    Decidable (f.StoredIn c ns) :=
  decidable_of_iff (f.id < Word.size64 ∧ c.number? (.node ns f.id .height) = some f.height ∧
      c.number? (.node ns f.id .balance) = some f.balance)
    ⟨fun ⟨lt, height, balance⟩ => ⟨lt, height, balance⟩, fun h => ⟨h.id_lt, h.height, h.balance⟩⟩

instance Branch.decidableStoredIn (c : Contents) (ns : FileId) :
    (parent : Link) → (b : Branch) → Decidable (b.StoredIn c ns parent)
  | _, leaf => inferInstanceAs (Decidable True)
  | parent, node l f r =>
    have := decidableStoredIn c ns (some f.id) l
    have := decidableStoredIn c ns (some f.id) r
    inferInstanceAs (Decidable (f.StoredIn c ns ∧
      c.link? (.node ns f.id .parent) = some parent ∧ c.link? (.node ns f.id .left) = some l.link ∧
      c.link? (.node ns f.id .right) = some r.link ∧ l.StoredIn c ns (some f.id) ∧
      r.StoredIn c ns (some f.id)))

/-- The field that links to the branch at the end of a trail. -/
def Trail.slot (ns : FileId) : Trail → Key
  | [] => .root ns
  | t :: _ => .node ns t.fork.id t.side.field

@[simp]
theorem Trail.local_slot (ns : FileId) (p : Trail) : (p.slot ns).Local := by
  cases p <;> rfl

/-- The link in the slot of a trail. -/
def Contents.slot? (c : Contents) (ns : FileId) : Trail → Option Link
  | [] => c.root? ns
  | t :: _ => c.link? (.node ns t.fork.id t.side.field)

/-- The nodes around a branch are stored, and their one link to it is `child`. -/
def Trail.StoredIn (c : Contents) (ns : FileId) (child : Link) : Trail → Prop
  | [] => c.root? ns = some child
  | t :: p =>
    t.fork.StoredIn c ns ∧ c.link? (.node ns t.fork.id .parent) = some (Trail.parent p) ∧
      c.link? (.node ns t.fork.id t.side.field) = some child ∧
      c.link? (.node ns t.fork.id t.side.other.field) = some t.sibling.link ∧
      t.sibling.StoredIn c ns (some t.fork.id) ∧ Trail.StoredIn c ns (some t.fork.id) p

/-! ### The ids around a branch -/

namespace Trail

/-- The ids of the nodes around a branch. -/
def ids : Trail → List NodeId
  | [] => []
  | t :: p => t.fork.id :: (t.sibling.ids ++ ids p)

@[simp]
theorem ids_nil : Trail.ids [] = [] := rfl

@[simp]
theorem ids_cons (t : Turn) (p : Trail) :
    Trail.ids (t :: p) = t.fork.id :: (t.sibling.ids ++ p.ids) := rfl

/-- A way up is no longer than the number of nodes around it. -/
theorem length_le_ids (p : Trail) : p.length ≤ p.ids.length := by
  induction p with
  | nil => simp
  | cons t p ih => simp only [List.length_cons, ids_cons, List.length_append]; omega

theorem mem_ids_close {p : Trail} {b : Branch} {id : NodeId} :
    id ∈ (p.close b).ids ↔ id ∈ b.ids ∨ id ∈ p.ids := by
  induction p generalizing b with
  | nil => simp [close]
  | cons t p ih =>
    rw [close, ih, Turn.close, Branch.mem_ids_join]
    simp only [ids_cons, List.mem_cons, List.mem_append]
    tauto

theorem nodup_ids_close {p : Trail} {b : Branch} :
    (p.close b).ids.Nodup ↔ b.ids.Nodup ∧ p.ids.Nodup ∧ List.Disjoint b.ids p.ids := by
  induction p generalizing b with
  | nil => simp [close]
  | cons t p ih =>
    rw [close, ih, Turn.close, Branch.nodup_ids_join]
    -- Being apart from the rest of the trail is asked of the node, the branch and the sibling.
    have split : List.Disjoint (Branch.join t.side b t.fork t.sibling).ids (ids p) ↔
        t.fork.id ∉ ids p ∧ List.Disjoint b.ids (ids p) ∧ List.Disjoint t.sibling.ids (ids p) := by
      simp only [List.Disjoint, Branch.mem_ids_join]
      constructor
      · intro h
        exact ⟨fun hid => h (Or.inl rfl) hid, fun _ hb => h (Or.inr (Or.inl hb)),
          fun _ hs => h (Or.inr (Or.inr hs))⟩
      · rintro ⟨hid, hb, hs⟩ id (rfl | h | h)
        · exact hid
        · exact hb h
        · exact hs h
    simp only [split, ids_cons, List.nodup_cons, List.nodup_append', List.mem_append,
      List.disjoint_cons_right, List.disjoint_append_right]
    tauto

end Trail

/-! ### Taking a stored tree apart -/

theorem Branch.storedIn_join {c : Contents} {ns : FileId} {parent : Link} {side : Side}
    {near far : Branch} {f : Fork} :
    (join side near f far).StoredIn c ns parent ↔
      f.StoredIn c ns ∧ c.link? (.node ns f.id .parent) = some parent ∧
        c.link? (.node ns f.id side.field) = some near.link ∧
        c.link? (.node ns f.id side.other.field) = some far.link ∧
        near.StoredIn c ns (some f.id) ∧ far.StoredIn c ns (some f.id) := by
  cases side <;> simp only [join, StoredIn, Side.field, Side.other]
  tauto

/-! ### Writes elsewhere -/

/-- Writes that leave the two numbers of a node alone keep them. -/
theorem Fork.StoredIn.frame {c c' : Contents} {ns : FileId} {P : Key → Prop} {f : Fork}
    (h : f.StoredIn c ns) (hc : Contents.Changes P c c') (height : ¬ P (.node ns f.id .height))
    (balance : ¬ P (.node ns f.id .balance)) : f.StoredIn c' ns := by
  refine ⟨h.id_lt, ?_, ?_⟩
  · rw [hc.number?_eq height, h.height]
  · rw [hc.number?_eq balance, h.balance]

namespace Branch

variable {c c' : Contents} {ns : FileId} {P : Key → Prop} {parent : Link} {b : Branch}

/-- Writes that leave the shape fields of its nodes alone keep a branch. -/
theorem StoredIn.frame (h : b.StoredIn c ns parent) (hc : Contents.Changes P c c')
    (hP : ∀ id ∈ b.ids, ∀ f : NodeField, f.IsShape → ¬ P (.node ns id f)) :
    b.StoredIn c' ns parent := by
  induction b generalizing parent with
  | leaf => trivial
  | node l f r ihl ihr =>
    obtain ⟨hf, hp, hl, hr, left, right⟩ := h
    have own : ∀ g : NodeField, g.IsShape → ¬ P (.node ns f.id g) := hP f.id (by simp)
    refine ⟨hf.frame hc (own .height trivial) (own .balance trivial), ?_, ?_, ?_, ?_, ?_⟩
    · rw [hc.link?_eq (own .parent trivial), hp]
    · rw [hc.link?_eq (own .left trivial), hl]
    · rw [hc.link?_eq (own .right trivial), hr]
    · exact ihl left fun id hid => hP id (by simp [hid])
    · exact ihr right fun id hid => hP id (by simp [hid])

/-- A branch that was given another parent, and nothing else. -/
theorem StoredIn.reparent {parent' : Link} (h : b.StoredIn c ns parent) (nodup : b.ids.Nodup)
    (hc : Contents.Changes P c c')
    (hP : ∀ id ∈ b.ids, ∀ f : NodeField, f.IsShape → P (.node ns id f) →
      b.link = some id ∧ f = .parent)
    (hparent : ∀ id, b.link = some id → c'.link? (.node ns id .parent) = some parent') :
    b.StoredIn c' ns parent' := by
  cases b with
  | leaf => trivial
  | node l f r =>
    obtain ⟨hf, -, hl, hr, left, right⟩ := h
    have own : ∀ g : NodeField, g.IsShape → g ≠ .parent → ¬ P (.node ns f.id g) := by
      intro g hg hne hPg
      exact hne (hP f.id (by simp) g hg hPg).2
    obtain ⟨nodup_l, nodup_r, hfl, hfr, -⟩ := (nodup_ids_join .left).1 nodup
    -- The nodes below are not the topmost one, so nothing of theirs was written.
    have below : ∀ id ∈ (node l f r).ids, id ≠ f.id → ∀ g : NodeField, g.IsShape →
        ¬ P (.node ns id g) := by
      intro id hid hne g hg hPg
      have top := (hP id hid g hg hPg).1
      exact hne (Option.some.inj top).symm
    have numbers := hf.frame hc (own .height trivial (by decide)) (own .balance trivial (by decide))
    refine ⟨numbers, hparent f.id rfl, ?_, ?_, left.frame hc ?_, right.frame hc ?_⟩
    · rw [hc.link?_eq (own .left trivial (by decide)), hl]
    · rw [hc.link?_eq (own .right trivial (by decide)), hr]
    · intro id hid
      exact below id (by simp [hid]) (fun he => hfl (he ▸ hid))
    · intro id hid
      exact below id (by simp [hid]) (fun he => hfr (he ▸ hid))

/-- The topmost id of a stored branch is a word. -/
theorem StoredIn.fits (h : b.StoredIn c ns parent) : b.link.Fits := by
  cases b with
  | leaf => simp
  | node l f r => simpa using h.1.id_lt

end Branch

namespace Trail

variable {c c' : Contents} {ns : FileId} {P : Key → Prop} {child : Link} {p : Trail}

theorem root?_eq (hc : Contents.Changes P c c') (hP : ¬ P (.root ns)) :
    c'.root? ns = c.root? ns := by
  rw [Contents.root?, Contents.root?, hc.read_eq hP]

/-- Writes that leave the shape fields of its nodes and the root link alone keep a trail. -/
theorem StoredIn.frame (h : p.StoredIn c ns child) (hc : Contents.Changes P c c')
    (hP : ∀ id ∈ p.ids, ∀ f : NodeField, f.IsShape → ¬ P (.node ns id f))
    (hroot : ¬ P (.root ns)) : p.StoredIn c' ns child := by
  induction p generalizing child with
  | nil => rwa [StoredIn, root?_eq hc hroot]
  | cons t p ih =>
    obtain ⟨hf, hp, hchild, hfar, hs, rest⟩ := h
    have own : ∀ g : NodeField, g.IsShape → ¬ P (.node ns t.fork.id g) := hP t.fork.id (by simp)
    have numbers := hf.frame hc (own .height trivial) (own .balance trivial)
    refine ⟨numbers, ?_, ?_, ?_, hs.frame hc ?_, ih rest ?_⟩
    · rw [hc.link?_eq (own .parent trivial), hp]
    · rw [hc.link?_eq (own _ (by simp)), hchild]
    · rw [hc.link?_eq (own _ (by simp)), hfar]
    · exact fun id hid => hP id (by simp [hid])
    · exact fun id hid => hP id (by simp [hid])

/-- A trail whose one link to the branch was turned to another branch, and nothing else. -/
theorem StoredIn.relink {child' : Link} (h : p.StoredIn c ns child) (nodup : p.ids.Nodup)
    (hc : Contents.Changes P c c')
    (hP : ∀ id ∈ p.ids, ∀ f : NodeField, f.IsShape → P (.node ns id f) →
      .node ns id f = p.slot ns)
    (hroot : P (.root ns) → p = [])
    (hslot : c'.slot? ns p = some child') : p.StoredIn c' ns child' := by
  cases p with
  | nil => exact hslot
  | cons t p =>
    obtain ⟨hf, hp, -, hfar, hs, rest⟩ := h
    -- Of the fields of the last turn, only the slot was written.
    have own : ∀ g : NodeField, g.IsShape → g ≠ t.side.field → ¬ P (.node ns t.fork.id g) := by
      intro g hg hne hPg
      have := hP t.fork.id (by simp) g hg hPg
      simp only [slot, Key.node.injEq] at this
      exact hne this.2.2
    -- The slot belongs to its topmost node, so the other nodes were left alone.
    have other : ∀ id ∈ Trail.ids (t :: p), id ≠ t.fork.id → ∀ g : NodeField, g.IsShape →
        ¬ P (.node ns id g) := by
      intro id hid hne g hg hPg
      have := hP id hid g hg hPg
      simp only [slot, Key.node.injEq] at this
      exact hne this.2.1
    have away := (List.nodup_cons.1 nodup).1
    simp only [List.mem_append, not_or] at away
    have numbers := hf.frame hc (own .height trivial (Side.field_ne_height _).symm)
      (own .balance trivial (Side.field_ne_balance _).symm)
    refine ⟨numbers, ?_, hslot, ?_, hs.frame hc ?_, rest.frame hc ?_ ?_⟩
    · rw [hc.link?_eq (own .parent trivial (Side.field_ne_parent _).symm), hp]
    · rw [hc.link?_eq (own _ (by simp) (Side.field_ne_other _).symm), hfar]
    · exact fun id hid => other id (by simp [hid]) fun he => away.1 (he ▸ hid)
    · exact fun id hid => other id (by simp [hid]) fun he => away.2 (he ▸ hid)
    · exact fun hr => absurd (hroot hr) (by simp)

end Trail

/-! ### What the accessors give -/

namespace Node

variable {c : Contents} {ns : FileId} {id : NodeId}

theorem run_read {field : NodeField} {text : String}
    (h : c.text? (.node ns id field) = some text) : (read ns id field).run c = .ok text c := by
  rw [read, Script.run_bind_ok (Script.run_get_text h)]
  rfl

theorem run_readLink {field : NodeField} {link : Link}
    (h : c.link? (.node ns id field) = some link) :
    (readLink ns id field).run c = .ok link c := by
  obtain ⟨raw, hraw, hlink⟩ := Option.bind_eq_some_iff.1 h
  rw [readLink, Script.run_bind_ok (run_read hraw)]
  simp only [hlink]
  rfl

theorem run_readNumber {field : NodeField} {n : Int}
    (h : c.number? (.node ns id field) = some n) :
    (readNumber ns id field).run c = .ok n c := by
  obtain ⟨raw, hraw, hn⟩ := Option.bind_eq_some_iff.1 h
  cases hp : Integer.signed32 raw with
  | error fault => rw [hp] at hn; cases hn
  | ok value =>
    rw [hp] at hn
    cases hn
    rw [readNumber, Script.run_bind_ok (Script.run_getParsed_text hraw hp)]
    rfl

theorem run_child (side : Side) {link : Link}
    (h : c.link? (.node ns id side.field) = some link) : (child ns side id).run c = .ok link c :=
  run_readLink h

theorem run_parent {link : Link} (h : c.link? (.node ns id .parent) = some link) :
    (parent ns id).run c = .ok link c :=
  run_readLink h

/-- The height below a link to a stored branch. -/
theorem run_height {b : Branch} {parent : Link} (h : b.StoredIn c ns parent) :
    (height ns b.link).run c = .ok b.height c := by
  cases b with
  | leaf => rfl
  | node l f r => exact run_readNumber h.1.height

@[simp]
theorem run_write (field : NodeField) (value : String) :
    (write ns id field value).run c = .ok () (c.put (Key.node ns id field).text value) := rfl

@[simp]
theorem run_setChild (side : Side) (link : Link) :
    (setChild ns side id link).run c =
      .ok () (c.put (Key.node ns id side.field).text link.text) := rfl

@[simp]
theorem run_setParent (link : Link) :
    (setParent ns id link).run c = .ok () (c.put (Key.node ns id .parent).text link.text) := rfl

end Node

namespace Tree

theorem run_root {c : Contents} {ns : FileId} {link : Link} (h : c.root? ns = some link) :
    (root ns).run c = .ok link c := by
  unfold Contents.root? at h
  split at h
  · next hr =>
    cases h
    rw [root, Script.run_bind_ok (Script.run_get hr)]
    rfl
  · next raw hr =>
    rw [root, Script.run_bind_ok (Script.run_get hr)]
    simp only [h]
    rfl
  · cases h

@[simp]
theorem run_setRoot (c : Contents) (ns : FileId) (link : Link) :
    (setRoot ns link).run c = .ok () (c.put (Key.root ns).text link.text) := rfl

/-- Writing a link into the slot of a trail puts it there. -/
theorem slot?_put (c : Contents) (ns : FileId) (p : Trail) {link : Link} (h : link.Fits) :
    (c.put (p.slot ns).text link.text).slot? ns p = some link := by
  cases p with
  | nil =>
    rw [Trail.slot, Contents.slot?, Contents.root?, Contents.read_put, if_pos rfl]
    exact Link.parse?_text h
  | cons t p => simp [Trail.slot, Contents.slot?, Link.parse?_text h]

/-- The stored nodes around a branch link to it. -/
theorem slot?_of_storedIn {c : Contents} {ns : FileId} {p : Trail} {child : Link}
    (h : p.StoredIn c ns child) : c.slot? ns p = some child := by
  cases p with
  | nil => exact h
  | cons t p => exact h.2.2.1

/-- The slot of a trail is none of the fields of a node elsewhere. -/
theorem slot_ne {ns : FileId} {p : Trail} {id : NodeId} (h : id ∉ p.ids) (f : NodeField) :
    p.slot ns ≠ .node ns id f := by
  cases p with
  | nil => simp [Trail.slot]
  | cons t p =>
    intro he
    obtain ⟨-, rfl, -⟩ := Key.node.inj he
    exact h (by simp)

end Tree

/-! ### Writing the link to a branch -/

variable {c : Contents} {ns : FileId} {p : Trail} {b : Branch}

/-- The topmost id of a stored trail is a word. -/
theorem Trail.StoredIn.fits {child : Link} (h : p.StoredIn c ns child) : p.parent.Fits := by
  cases p with
  | nil => simp [Trail.parent]
  | cons t p => simpa [Trail.parent] using h.1.id_lt

/-- A branch elsewhere is kept by a write to the slot of a trail. -/
theorem Branch.StoredIn.put_slot {parent : Link} (h : b.StoredIn c ns parent)
    (apart : List.Disjoint b.ids p.ids) (link : Link) :
    b.StoredIn (c.put (p.slot ns).text link.text) ns parent := by
  refine h.frame (.single c (p.slot ns) link.text) ?_
  intro id hid f _ he
  exact Tree.slot_ne (apart hid) f he.symm

/-- A trail leads to the link that was written into its slot. -/
theorem Trail.StoredIn.put_slot {child link : Link} (h : p.StoredIn c ns child)
    (nodup : p.ids.Nodup) (fits : link.Fits) :
    p.StoredIn (c.put (p.slot ns).text link.text) ns link := by
  refine h.relink nodup (.single c (p.slot ns) link.text)
    (fun _ _ _ _ he => he) ?_ (Tree.slot?_put c ns p fits)
  intro he
  cases p with
  | nil => rfl
  | cons t p => cases he

/-! ### A tree seen from one of its branches -/

namespace Tree

/-- The tree with the nodes `ids`, in this order, is stored: the branch `b` and the trail `p` that
leads to it. -/
structure Focus (c : Contents) (ns : FileId) (ids : List NodeId) (p : Trail) (b : Branch) :
    Prop where
  branch : b.StoredIn c ns p.parent
  trail : p.StoredIn c ns b.link
  ids_close : (p.close b).ids = ids
  nodup : ids.Nodup

/-- The keys of the shape of a tree with the given nodes. -/
def IsShape (ns : FileId) (ids : List NodeId) (k : Key) : Prop :=
  k = .root ns ∨ ∃ id ∈ ids, ∃ f : NodeField, f.IsShape ∧ k = .node ns id f

@[simp]
theorem not_isShape_size (ns ns' : FileId) (ids : List NodeId) : ¬ IsShape ns ids (.size ns') := by
  simp [IsShape]

/-- The fields that hold an entry are not part of the shape. -/
theorem not_isShape_node {ids : List NodeId} {id : NodeId} {f : NodeField} (hf : ¬ f.IsShape) :
    ¬ IsShape ns ids (.node ns id f) := by
  rintro (he | ⟨id', -, g, hg, he⟩)
  · cases he
  · obtain ⟨-, -, rfl⟩ := Key.node.inj he
    exact hf hg

/-- The keys of the shape of a branch, and of the one link that leads to it. -/
def IsBranch (ns : FileId) (p : Trail) (b : Branch) (k : Key) : Prop :=
  k = p.slot ns ∨ ∃ id ∈ b.ids, ∃ f : NodeField, f.IsShape ∧ k = .node ns id f

/-- One level up, the branch is larger, and the link that leads to it was one of its own. -/
theorem isBranch_close {t : Turn} {k : Key} (h : IsBranch ns (t :: p) b k) :
    IsBranch ns p (t.close b) k := by
  rcases h with rfl | ⟨id, hid, f, hf, rfl⟩
  · exact Or.inr ⟨t.fork.id, by simp [Turn.close, Branch.mem_ids_join], _, by simp, rfl⟩
  · exact Or.inr ⟨id, by simp [Turn.close, Branch.mem_ids_join, hid], f, hf, rfl⟩

theorem isBranch_of_subset {b' : Branch} (sub : ∀ id ∈ b.ids, id ∈ b'.ids) {k : Key}
    (h : IsBranch ns p b k) : IsBranch ns p b' k :=
  h.imp_right fun ⟨id, hid, shape⟩ => ⟨id, sub id hid, shape⟩

namespace Focus

variable {ids : List NodeId} {t : Turn}

/-- One level up or down, it is the same tree. -/
theorem cons_iff : Focus c ns ids (t :: p) b ↔ Focus c ns ids p (t.close b) := by
  constructor
  · rintro ⟨hb, ⟨hf, hp, hchild, hfar, hs, rest⟩, close, nodup⟩
    refine ⟨Branch.storedIn_join.2 ⟨hf, hp, hchild, hfar, hb, hs⟩, ?_, close, nodup⟩
    rwa [Turn.close, Branch.link_join]
  · rintro ⟨hb, rest, close, nodup⟩
    obtain ⟨hf, hp, hchild, hfar, hb, hs⟩ := Branch.storedIn_join.1 hb
    rw [Turn.close, Branch.link_join] at rest
    exact ⟨hb, ⟨hf, hp, hchild, hfar, hs, rest⟩, close, nodup⟩

/-- Some levels up, it is the same tree. -/
theorem append_iff {q : Trail} : Focus c ns ids (p ++ q) b ↔ Focus c ns ids q (p.close b) := by
  induction p generalizing b with
  | nil => rfl
  | cons t p ih => exact cons_iff.trans ih

theorem nodup_close (h : Focus c ns ids p b) : (p.close b).ids.Nodup := h.ids_close ▸ h.nodup

theorem nodup_branch (h : Focus c ns ids p b) : b.ids.Nodup :=
  (Trail.nodup_ids_close.1 h.nodup_close).1

theorem disjoint (h : Focus c ns ids p b) : List.Disjoint b.ids p.ids :=
  (Trail.nodup_ids_close.1 h.nodup_close).2.2

theorem mem_iff (h : Focus c ns ids p b) {id : NodeId} : id ∈ ids ↔ id ∈ b.ids ∨ id ∈ p.ids := by
  rw [← h.ids_close, Trail.mem_ids_close]

theorem ids_congr (h : Focus c ns ids p b) {b' : Branch} (same : b'.ids = b.ids) :
    (p.close b').ids = ids := by
  rw [← h.ids_close, Trail.ids_close, Trail.ids_close, same]

/-- The slot of the trail is one of the keys of the shape. -/
theorem isShape_slot (h : Focus c ns ids p b) : IsShape ns ids (p.slot ns) := by
  cases p with
  | nil => exact Or.inl rfl
  | cons t p => exact Or.inr ⟨t.fork.id, h.mem_iff.2 (by simp), _, by simp, rfl⟩

theorem isShape_of_isBranch (h : Focus c ns ids p b) {k : Key} (hk : IsBranch ns p b k) :
    IsShape ns ids k := by
  rcases hk with rfl | ⟨id, hid, f, hf, rfl⟩
  · exact h.isShape_slot
  · exact Or.inr ⟨id, h.mem_iff.2 (Or.inl hid), f, hf, rfl⟩

/-- A branch that is stored below the right parent becomes part of the tree once the slot of the
trail leads to it. -/
theorem graft {b' : Branch} {child : Link} (hp : p.StoredIn c ns child)
    (hb : b'.StoredIn c ns p.parent) (nodup : (p.close b').ids.Nodup) :
    Focus (c.put (p.slot ns).text b'.link.text) ns (p.close b').ids p b' := by
  obtain ⟨-, nodup_p, apart⟩ := Trail.nodup_ids_close.1 nodup
  exact ⟨hb.put_slot apart _, hp.put_slot nodup_p hb.fits, rfl, nodup⟩

/-- Writes outside of the shape of the tree keep it. -/
theorem frame {c' : Contents} {P : Key → Prop} (h : Focus c ns ids p b)
    (hc : Contents.Changes P c c') (hP : ∀ k, P k → ¬ IsShape ns ids k) : Focus c' ns ids p b := by
  refine ⟨h.branch.frame hc ?_, h.trail.frame hc ?_ ?_, h.ids_close, h.nodup⟩
  · exact fun id hid f hf hk => hP _ hk (Or.inr ⟨id, h.mem_iff.2 (Or.inl hid), f, hf, rfl⟩)
  · exact fun id hid f hf hk => hP _ hk (Or.inr ⟨id, h.mem_iff.2 (Or.inr hid), f, hf, rfl⟩)
  · exact fun hk => hP _ hk (Or.inl rfl)

end Focus

end Tree

end FlatStore
