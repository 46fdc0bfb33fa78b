import FlatStore.Proofs.Tree.Layout

/-! # Rotations in a store

    What recomputing a node and rotating an edge do to the stored fields. The
    stored numbers need not be right, and the tree need not be balanced or
    ordered: it has to be linked up, and the recomputed numbers have to fit
    into 32 bits (`Branch.Fitting`), as they do above low heights.

    * `run_update`: the two numbers of one node are set right, and nothing
      else is written.
    * `run_rotate_fitting`: the shape becomes `Branch.rotate` of it. Besides
      the two nodes, only the parent link of the inner grandchild and the one
      link to the subtree are written (`IsRotated`), and what is written to
      link fields are links (`Contents.Relinked`).
-/

namespace FlatStore

/-- Numbers that fit into a signed word of 32 bits. -/
def Word.Fits32 (n : Int) : Prop := -(half32 : Int) ≤ n ∧ n < half32

theorem Word.fits32_of_le {n : Int} (low : -0x40000000 ≤ n) (high : n ≤ 0x40000000) : Fits32 n := by
  simp only [Fits32, half32]
  omega

/-- The two numbers of the topmost node fit into 32 bits. -/
def Branch.Fitting : Branch → Prop
  | leaf => True
  | node _ f _ => Word.Fits32 f.height ∧ Word.Fits32 f.balance

/-- Whichever side a branch is on, the numbers recomputed above it fit. -/
theorem Branch.fitting_settleOn (side : Side) {near far : Branch} (f : Fork)
    (height : Word.Fits32 (1 + max near.height far.height))
    (balance : Word.Fits32 (far.height - near.height))
    (mirrored : Word.Fits32 (near.height - far.height)) : (settleOn side near f far).Fitting := by
  cases side with
  | left => exact ⟨height, balance⟩
  | right =>
    rw [max_comm] at height
    exact ⟨height, mirrored⟩

/-- The height of a branch is at most `n`. -/
def Branch.Within (n : Int) (b : Branch) : Prop := -1 ≤ b.height ∧ b.height ≤ n

namespace Branch.Within

variable {m n : Int} {near far : Branch}

theorem mono (h : near.Within m) (le : m ≤ n) : near.Within n := ⟨h.1, by have := h.2; omega⟩

theorem settleOn {side : Side} {f : Fork} (hnear : near.Within n) (hfar : far.Within n) :
    (Branch.settleOn side near f far).Within (n + 1) := by
  obtain ⟨low, high⟩ := hnear
  obtain ⟨low', high'⟩ := hfar
  rw [Within, height_settleOn]
  omega

/-- The numbers above low branches fit. -/
theorem fitting (side : Side) (f : Fork) (hnear : near.Within 0x20000000)
    (hfar : far.Within 0x20000000) : (Branch.settleOn side near f far).Fitting := by
  obtain ⟨low, high⟩ := hnear
  obtain ⟨low', high'⟩ := hfar
  refine Branch.fitting_settleOn side f ?_ ?_ ?_ <;> apply Word.fits32_of_le <;> omega

end Branch.Within

namespace Tree

variable {c : Contents} {ns : FileId} {parent : Link}

theorem run_fitting {n : Int} (c : Contents) (h : Word.Fits32 n) :
    (fitting n).run c = .ok n c := by
  have : -(Word.half32 : Int) ≤ n ∧ n < Word.half32 := h
  simp only [fitting, this, and_self, if_true]
  rfl

/-! ### One node -/

/-- A number that is written only where it changes is there afterwards. -/
theorem run_writeChanged {id : NodeId} {field : NodeField} {old new : Int} (α : Type)
    (h : c.number? (.node ns id field) = some old) (fits : Word.Fits32 new) :
    ∃ c', (∀ rest : Unit → Script α,
        (if old ≠ new then Node.write ns id field (toString new) >>= rest else rest ()).run c =
          (rest ()).run c') ∧
      c'.number? (.node ns id field) = some new ∧
      Contents.Changes (· = .node ns id field) c c' ∧ (old = new → c' = c) := by
  by_cases same : old = new
  · subst same
    exact ⟨c, fun rest => by simp, h, .refl _ c, fun _ => rfl⟩
  · refine ⟨c.put (Key.node ns id field).text (toString new), ?_, ?_, ?_, ?_⟩
    · intro rest
      rw [if_pos same, Script.run_bind_ok (Node.run_write field (toString new))]
    · rw [Contents.number?_put _ (by simp), if_pos rfl,
        Integer.signed32_toString fits.1 fits.2]
      rfl
    · exact Contents.Changes.single c (.node ns id field) _
    · exact fun he => absurd he same

/-- The keys of the two numbers of a node. -/
def IsNumberOf (ns : FileId) (id : NodeId) (k : Key) : Prop :=
  k = .node ns id .height ∨ k = .node ns id .balance

theorem not_isNumberOf_of_ne {id id' : NodeId} (h : id ≠ id') (f : NodeField) :
    ¬ IsNumberOf ns id' (.node ns id f) := by
  rintro (he | he)
  · exact h (Key.node.inj he).2.1
  · exact h (Key.node.inj he).2.1

/-- A node whose two numbers were set right, and nothing else, is settled. -/
theorem storedIn_settle {c' : Contents} {l r : Branch} {f : Fork}
    (h : (Branch.node l f r).StoredIn c ns parent) (nodup : (Branch.node l f r).ids.Nodup)
    (changes : Contents.Changes (IsNumberOf ns f.id) c c')
    (height : c'.number? (.node ns f.id .height) = some (1 + max l.height r.height))
    (balance : c'.number? (.node ns f.id .balance) = some (r.height - l.height)) :
    (Branch.settle l f r).StoredIn c' ns parent := by
  obtain ⟨hf, hp, hl, hr, left, right⟩ := h
  obtain ⟨-, -, not_left, not_right, -⟩ := (Branch.nodup_ids_join .left).1 nodup
  refine ⟨⟨hf.id_lt, height, balance⟩, ?_, ?_, ?_, left.frame changes ?_, right.frame changes ?_⟩
  · rw [changes.link?_eq (by simp [IsNumberOf]), Fork.id_over, hp]
  · rw [changes.link?_eq (by simp [IsNumberOf]), Fork.id_over, hl]
  · rw [changes.link?_eq (by simp [IsNumberOf]), Fork.id_over, hr]
  · intro id hid g _
    have ne : id ≠ f.id := by
      rintro rfl
      exact not_left hid
    exact not_isNumberOf_of_ne ne g
  · intro id hid g _
    have ne : id ≠ f.id := by
      rintro rfl
      exact not_right hid
    exact not_isNumberOf_of_ne ne g

/-- Recomputing a node sets its two numbers right and gives its balance factor. Where they are right
already, nothing is written. -/
theorem run_update {l r : Branch} {f : Fork} (h : (Branch.node l f r).StoredIn c ns parent)
    (nodup : (Branch.node l f r).ids.Nodup) (hheight : Word.Fits32 (1 + max l.height r.height))
    (hbalance : Word.Fits32 (r.height - l.height)) :
    ∃ c', (update ns f.id).run c = .ok (r.height - l.height) c' ∧
      (Branch.settle l f r).StoredIn c' ns parent ∧
      Contents.Changes (IsNumberOf ns f.id) c c' ∧ (f = f.over l r → c' = c) := by
  have stored := h
  obtain ⟨hf, -, hl, hr, left, right⟩ := h
  -- Each of the two numbers is written only if it is a new one.
  obtain ⟨c₁, run₁, number₁, changes₁, idle₁⟩ := run_writeChanged Int hf.height hheight
  have old : c₁.number? (.node ns f.id .balance) = some f.balance := by
    rw [changes₁.number?_eq (by simp), hf.balance]
  obtain ⟨c₂, run₂, number₂, changes₂, idle₂⟩ := run_writeChanged Int old hbalance
  have changes : Contents.Changes (IsNumberOf ns f.id) c c₂ :=
    (changes₁.mono fun _ => Or.inl).trans (changes₂.mono fun _ => Or.inr)
  refine ⟨c₂, ?_, storedIn_settle stored nodup changes ?_ number₂, changes, ?_⟩
  · have height : (Node.height ns (some f.id)).run c = .ok f.height c :=
      Node.run_readNumber hf.height
    have balance : (Node.balance ns f.id).run c₁ = .ok f.balance c₁ := Node.run_readNumber old
    rw [update, Script.run_bind_ok (Node.run_child .left hl),
      Script.run_bind_ok (Node.run_height left),
      Script.run_bind_ok (Node.run_child .right hr),
      Script.run_bind_ok (Node.run_height right), Script.run_bind_ok (run_fitting c hheight),
      Script.run_bind_ok (run_fitting c hbalance), Script.run_bind_ok height]
    refine (run₁ _).trans ?_
    rw [Script.run_bind_ok balance]
    exact run₂ _
  · rw [changes₂.number?_eq (by simp), number₁]
  · intro right
    rw [idle₂ (congrArg Fork.balance right), idle₁ (congrArg Fork.height right)]

theorem isShape_of_isNumberOf {id : NodeId} {k : Key} (hk : IsNumberOf ns id k) :
    ∃ f : NodeField, f.IsShape ∧ k = .node ns id f := by
  rcases hk with rfl | rfl
  · exact ⟨.height, trivial, rfl⟩
  · exact ⟨.balance, trivial, rfl⟩

theorem isBranch_of_isNumberOf {p : Trail} {b : Branch} {id : NodeId} (hid : id ∈ b.ids) {k : Key}
    (hk : IsNumberOf ns id k) : IsBranch ns p b k := by
  obtain ⟨f, hf, rfl⟩ := isShape_of_isNumberOf hk
  exact Or.inr ⟨id, hid, f, hf, rfl⟩

/-- Recomputing a node of a tree. -/
theorem run_update_focus {ids : List NodeId} {p : Trail} {l r : Branch} {f : Fork}
    (h : Focus c ns ids p (.node l f r)) (fits : (Branch.settle l f r).Fitting) :
    ∃ c', (update ns f.id).run c = .ok (r.height - l.height) c' ∧
      Focus c' ns ids p (.settle l f r) ∧ Contents.Changes (IsNumberOf ns f.id) c c' ∧
      (f = f.over l r → c' = c) := by
  have top : f.id ∈ (Branch.node l f r).ids := by simp
  obtain ⟨c', run, stored, changes, idle⟩ := run_update h.branch h.nodup_branch fits.1 fits.2
  refine ⟨c', run, ⟨stored, h.trail.frame changes ?_ ?_, h.ids_congr (by simp), h.nodup⟩, changes,
    idle⟩
  · intro id hid g _
    have ne : id ≠ f.id := by
      rintro rfl
      exact h.disjoint top hid
    exact not_isNumberOf_of_ne ne g
  · simp [IsNumberOf]

/-- `run_update_focus`, told by the side of a child. -/
theorem run_update_join {ids : List NodeId} {p : Trail} {side : Side} {near far : Branch} {f : Fork}
    (h : Focus c ns ids p (.join side near f far))
    (fits : (Branch.settleOn side near f far).Fitting) :
    ∃ balance c', (update ns f.id).run c = .ok balance c' ∧
      Focus c' ns ids p (.settleOn side near f far) ∧
      Contents.Changes (IsNumberOf ns f.id) c c' := by
  cases side <;>
  · obtain ⟨c', run, focus, changes, -⟩ := run_update_focus h fits
    exact ⟨_, c', run, focus, changes⟩

/-! ### The link to a subtree -/

/-- The link to a subtree is written into the slot of its trail. -/
theorem run_replaceChild {p : Trail} {old : NodeId} {new : Link}
    (h : p.StoredIn c ns (some old)) (away : old ∉ p.ids) :
    (replaceChild ns p.parent old new).run c = .ok () (c.put (p.slot ns).text new.text) := by
  cases p with
  | nil => rfl
  | cons t p =>
    obtain ⟨-, -, hchild, hfar, -⟩ := h
    simp only [replaceChild, Trail.parent]
    cases hs : t.side with
    | left =>
      rw [hs] at hchild
      rw [Script.run_bind_ok (Node.run_child .left hchild), if_pos rfl]
      simp [Trail.slot, hs]
    | right =>
      -- The left link leads to the sibling, which is another node.
      rw [hs] at hfar
      have other : t.sibling.link ≠ some old := by
        intro he
        exact away (by simp [Branch.link_mem_ids he])
      rw [Script.run_bind_ok (Node.run_child .left hfar), if_neg other]
      simp [Trail.slot, hs]

theorem run_requiredChild {side : Side} {id child : NodeId}
    (h : c.link? (.node ns id side.field) = some (some child)) :
    (requiredChild ns side id).run c = .ok child c := by
  rw [requiredChild, Script.run_bind_ok (Node.run_child _ h)]
  rfl

end Tree

/-! ### The link to the parent -/

/-- Give the node that a link leads to, if any, another parent. -/
def Node.adopt (ns : FileId) (link : Link) (parent : Link) : Script Unit :=
  match link with
  | some id => Node.setParent ns id parent
  | none => pure ()

/-- The contents after the node that a link leads to was given another parent. -/
def Contents.adopted (c : Contents) (ns : FileId) (link parent : Link) : Contents :=
  match link with
  | some id => c.put (Key.node ns id .parent).text parent.text
  | none => c

/-- The key of the parent link of the node that a link leads to. -/
def IsParentOf (ns : FileId) (link : Link) (k : Key) : Prop :=
  ∃ id, link = some id ∧ k = .node ns id .parent

namespace Contents

variable {c : Contents} {ns : FileId} {link parent : Link}

theorem changes_adopted (c : Contents) (ns : FileId) (link parent : Link) :
    Changes (IsParentOf ns link) c (c.adopted ns link parent) := by
  cases link with
  | none => exact .refl _ c
  | some id => exact (Changes.refl _ c).put ⟨id, rfl, rfl⟩ _

theorem link?_adopted {id : NodeId} (h : link = some id) (fits : parent.Fits) :
    (c.adopted ns link parent).link? (.node ns id .parent) = some parent := by
  subst h
  simp [adopted, Link.parse?_text fits]

theorem not_isParentOf {b : Branch} {id : NodeId} (h : id ∉ b.ids) (f : NodeField) :
    ¬ IsParentOf ns b.link (.node ns id f) := by
  rintro ⟨i, hi, he⟩
  obtain ⟨-, rfl, -⟩ := Key.node.inj he
  exact h (Branch.link_mem_ids hi)

/-- The nodes outside of a branch do not notice that it is adopted. -/
theorem link?_adopted_of_not_mem {b : Branch} {id : NodeId} (h : id ∉ b.ids) (f : NodeField) :
    (c.adopted ns b.link parent).link? (.node ns id f) = c.link? (.node ns id f) :=
  (changes_adopted c ns b.link parent).link?_eq (not_isParentOf h f)

theorem number?_adopted_of_not_mem {b : Branch} {id : NodeId} (h : id ∉ b.ids) (f : NodeField) :
    (c.adopted ns b.link parent).number? (.node ns id f) = c.number? (.node ns id f) :=
  (changes_adopted c ns b.link parent).number?_eq (not_isParentOf h f)

end Contents

theorem Node.run_adopt (c : Contents) (ns : FileId) (link parent : Link) :
    (Node.adopt ns link parent).run c = .ok () (c.adopted ns link parent) := by
  cases link <;> rfl

/-! ### Written links -/

/-- Whether the field holds a link. -/
def Key.IsLink : Key → Prop
  | .root _ | .node _ _ .left | .node _ _ .right | .node _ _ .parent => True
  | _ => False

theorem Key.IsLink.isLocal {k : Key} (h : k.IsLink) : k.Local := by
  cases k with
  | node | root => rfl
  | map | counter | flag | list | size | orders | highWater | freeCount | freeSlot => exact h.elim

theorem Tree.not_isLink_of_isNumberOf {ns : FileId} {id : NodeId} {k : Key}
    (hk : IsNumberOf ns id k) : ¬ k.IsLink := by
  rcases hk with rfl | rfl <;> exact not_false

/-- Every link field was left alone, or holds a link that was written into it. -/
def Contents.Relinked (c c' : Contents) : Prop :=
  ∀ k : Key, k.IsLink → c' k.text.toUTF8 = c k.text.toUTF8 ∨
    ∃ link : Link, link.Fits ∧ c'.text? k = some link.text

namespace Contents.Relinked

variable {c c' c'' : Contents}

theorem refl (c : Contents) : Relinked c c := fun _ _ => Or.inl rfl

theorem trans (h : Relinked c c') (h' : Relinked c' c'') : Relinked c c'' := by
  intro k hk
  rcases h' k hk with same | written
  · rw [text?, read, same]
    exact h k hk
  · exact Or.inr written

/-- Writes to other fields than links. -/
theorem of_changes {P : Key → Prop} (h : Changes P c c') (hP : ∀ k, P k → ¬ k.IsLink) :
    Relinked c c' :=
  fun k hk => Or.inl (h k fun hPk => hP k hPk hk)

theorem put (h : Relinked c c') {k : Key} {link : Link} (fits : link.Fits)
    (hl : k.Local := by simp) : Relinked c (c'.put k.text link.text) := by
  refine h.trans fun k' _ => ?_
  by_cases same : k = k'
  · subst same
    exact Or.inr ⟨link, fits, by simp [hl]⟩
  · exact Or.inl (Changes.single c' k link.text hl k' fun he => same he.symm)

/-- Where a field holds the text of a link and leads to the same node as before, the text is the
same. -/
theorem text?_eq (h : Relinked c c') {k : Key} (hk : k.IsLink) (same : c'.link? k = c.link? k)
    {link : Link} (fits : link.Fits) (text : c.text? k = some link.text) :
    c'.text? k = some link.text := by
  rcases h k hk with alone | ⟨new, fits', text'⟩
  · rwa [text?, read, alone]
  · have old : c.link? k = some link := by rw [link?, text, Option.bind_some, Link.parse?_text fits]
    rw [link?, text', Option.bind_some, Link.parse?_text fits', old] at same
    rw [text', Option.some.inj same]

end Contents.Relinked

theorem Contents.relinked_adopted (c : Contents) (ns : FileId) (link : Link) {parent : Link}
    (fits : parent.Fits) : Relinked c (c.adopted ns link parent) := by
  cases link with
  | none => exact .refl c
  | some id => exact (Relinked.refl c).put fits

namespace Tree

variable {c : Contents} {ns : FileId}

/-! ### One edge -/

/-- A rotation as a plain sequence of steps. -/
theorem rotate_eq (up : Side) (id : NodeId) :
    rotate ns up id = (do
      let pivot ← requiredChild ns up id
      let inner ← Node.child ns up.other pivot
      let parent ← Node.parent ns id
      Node.setChild ns up id inner
      Node.adopt ns inner (some id)
      Node.setChild ns up.other pivot (some id)
      Node.setParent ns id (some pivot)
      Node.setParent ns pivot parent
      replaceChild ns parent id (some pivot)
      let _ ← update ns id
      let _ ← update ns pivot
      return pivot) := by
  rw [rotate]
  refine bind_congr fun pivot => bind_congr fun inner => bind_congr fun parent => ?_
  cases inner <;> rfl

/-- The keys that a rotation may write below the link to the subtree: the shape fields of the node
`x` and of its child `y`, and the parent link of the inner grandchild. -/
def Turned (ns : FileId) (x y : NodeId) (inner : Link) (k : Key) : Prop :=
  (∃ f : NodeField, f.IsShape ∧ (k = .node ns x f ∨ k = .node ns y f)) ∨ IsParentOf ns inner k

theorem not_turned {x y : NodeId} {inner : Link} {id : NodeId} {f : NodeField} (hx : id ≠ x)
    (hy : id ≠ y) (hi : inner = some id → f ≠ .parent) :
    ¬ Turned ns x y inner (.node ns id f) := by
  rintro (⟨g, -, h | h⟩ | ⟨i, hi', h⟩)
  · exact hx (Key.node.inj h).2.1
  · exact hy (Key.node.inj h).2.1
  · obtain ⟨-, rfl, hf⟩ := Key.node.inj h
    exact hi hi' hf

/-- The contents after the links at the two ends of an edge were turned around. -/
def turned (c : Contents) (ns : FileId) (up : Side) (x y : NodeId) (inner parent : Link) :
    Contents :=
  let c := c.put (Key.node ns x up.field).text inner.text
  let c := c.adopted ns inner (some x)
  let c := c.put (Key.node ns y up.other.field).text (Link.text (some x))
  let c := c.put (Key.node ns x .parent).text (Link.text (some y))
  c.put (Key.node ns y .parent).text parent.text

theorem changes_turned (c : Contents) (ns : FileId) (up : Side) (x y : NodeId)
    (inner parent : Link) :
    Contents.Changes (Turned ns x y inner) c (turned c ns up x y inner parent) := by
  have own : ∀ f : NodeField, f.IsShape → ∀ k, k = .node ns x f ∨ k = .node ns y f →
      Turned ns x y inner k := fun f hf k hk => Or.inl ⟨f, hf, hk⟩
  have start := (Contents.Changes.refl (Turned ns x y inner) c).put
    (own up.field (by simp) _ (Or.inl rfl)) inner.text
  have adopted := start.trans
    ((Contents.changes_adopted _ ns inner (some x)).mono fun _ => Or.inr)
  exact ((adopted.put (own up.other.field (by simp) _ (Or.inr rfl)) _).put
    (own .parent trivial _ (Or.inl rfl)) _).put (own .parent trivial _ (Or.inr rfl)) _

/-- The links at the two ends of an edge are turned by writing links. -/
theorem relinked_turned (c : Contents) (ns : FileId) (up : Side) {x y : NodeId}
    {inner parent : Link} (hx : Link.Fits (some x)) (hy : Link.Fits (some y))
    (hinner : inner.Fits) (hparent : parent.Fits) :
    Contents.Relinked c (turned c ns up x y inner parent) := by
  have start := (Contents.Relinked.refl c).put (k := .node ns x up.field) hinner
  have adopted := start.trans (Contents.relinked_adopted _ ns inner hx)
  exact ((adopted.put hx).put hy).put hparent

/-- The nodes at an edge that is about to be turned around are all different ones. -/
structure Apart (p : Trail) (outer inner rest : Branch) (x y : NodeId) : Prop where
  ne : y ≠ x
  x_outer : x ∉ outer.ids
  x_inner : x ∉ inner.ids
  x_rest : x ∉ rest.ids
  x_trail : x ∉ p.ids
  y_outer : y ∉ outer.ids
  y_inner : y ∉ inner.ids
  y_rest : y ∉ rest.ids
  y_trail : y ∉ p.ids
  outer_inner : List.Disjoint outer.ids inner.ids
  inner_rest : List.Disjoint inner.ids rest.ids
  inner_trail : List.Disjoint inner.ids p.ids
  nodup_inner : inner.ids.Nodup
  nodup_trail : p.ids.Nodup

theorem Focus.apart {ids : List NodeId} {up : Side} {p : Trail} {outer inner rest : Branch}
    {x y : Fork} (h : Focus c ns ids p (.join up (.join up outer y inner) x rest)) :
    Apart p outer inner rest x.id y.id := by
  obtain ⟨nodup_b, nodup_p, apart⟩ := Trail.nodup_ids_close.1 h.nodup_close
  obtain ⟨nodup_c, -, x_child, x_rest, child_rest⟩ := (Branch.nodup_ids_join _).1 nodup_b
  obtain ⟨-, nodup_i, y_outer, y_inner, outer_inner⟩ := (Branch.nodup_ids_join _).1 nodup_c
  simp only [Branch.mem_ids_join, not_or] at x_child
  obtain ⟨ne, x_outer, x_inner⟩ := x_child
  refine ⟨fun h => ne h.symm, x_outer, x_inner, x_rest, ?_, y_outer, y_inner, ?_, ?_, outer_inner,
    ?_, ?_, nodup_i, nodup_p⟩
  · exact fun h => apart (by simp [Branch.mem_ids_join]) h
  · exact fun h => child_rest (by simp [Branch.mem_ids_join]) h
  · exact fun h => apart (by simp [Branch.mem_ids_join]) h
  · exact fun id hid h => child_rest (by simp [Branch.mem_ids_join, hid]) h
  · exact fun id hid h => apart (by simp [Branch.mem_ids_join, hid]) h

section Links

variable {up : Side} {p : Trail} {outer inner rest : Branch} {x y : Fork}

/-- The trail does not notice that an edge at its end was turned around. -/
theorem storedIn_turned_trail (up : Side) {child : Link} (parent : Link)
    (hp : p.StoredIn c ns child) (ids : Apart p outer inner rest x.id y.id) :
    p.StoredIn (turned c ns up x.id y.id inner.link parent) ns child := by
  refine hp.frame (changes_turned c ns up x.id y.id inner.link parent) ?_ ?_
  · intro id hid f _
    refine not_turned (fun h => ids.x_trail (h ▸ hid)) (fun h => ids.y_trail (h ▸ hid)) fun h => ?_
    exact absurd hid (ids.inner_trail (Branch.link_mem_ids h))
  · rintro (⟨g, -, h | h⟩ | ⟨i, -, h⟩) <;> cases h

/-- A branch aside of the edge does not notice that it was turned around. -/
theorem storedIn_turned_aside (up : Side) {b : Branch} {x y : NodeId} {link : Link} (parent : Link)
    (h : b.StoredIn c ns link) (hx : x ∉ b.ids) (hy : y ∉ b.ids)
    (apart : List.Disjoint inner.ids b.ids) :
    b.StoredIn (turned c ns up x y inner.link parent) ns link := by
  refine h.frame (changes_turned c ns up x y inner.link parent) ?_
  intro id hid f _
  refine not_turned (fun h => hx (h ▸ hid)) (fun h => hy (h ▸ hid)) fun h => ?_
  exact absurd hid (apart (Branch.link_mem_ids h))

/-- The inner grandchild hangs under the node `x` once the edge is turned around. -/
theorem storedIn_turned_inner (up : Side) {x y : NodeId} {link : Link} (parent : Link)
    (h : inner.StoredIn c ns link) (nodup : inner.ids.Nodup) (hx : x ∉ inner.ids)
    (hy : y ∉ inner.ids) (fits : Link.Fits (some x)) :
    inner.StoredIn (turned c ns up x y inner.link parent) ns (some x) := by
  refine h.reparent nodup (changes_turned c ns up x y inner.link parent) ?_ ?_
  · rintro id hid f - (⟨g, -, h | h⟩ | ⟨i, hi, h⟩)
    · exact absurd ((Key.node.inj h).2.1 ▸ hid) hx
    · exact absurd ((Key.node.inj h).2.1 ▸ hid) hy
    · obtain ⟨-, rfl, hf⟩ := Key.node.inj h
      exact ⟨hi, hf⟩
  · intro id hid
    have mem := Branch.link_mem_ids hid
    have ne_x : x ≠ id := fun h => hx (h ▸ mem)
    have ne_y : y ≠ id := fun h => hy (h ▸ mem)
    simp [turned, ne_x, ne_y, Contents.link?_adopted hid fits]

/-- Once its links are turned, the child `y` stands above the node `x`. -/
theorem storedIn_turned {parent : Link} (fits : parent.Fits)
    (hb : (Branch.join up (.join up outer y inner) x rest).StoredIn c ns parent)
    (ids : Apart p outer inner rest x.id y.id) :
    (Branch.join up outer y (.join up inner x rest)).StoredIn
      (turned c ns up x.id y.id inner.link parent) ns parent := by
  obtain ⟨hx, -, -, hxother, hchild, hrest⟩ := Branch.storedIn_join.1 hb
  obtain ⟨hy, -, hyup, -, houter, hinner⟩ := Branch.storedIn_join.1 hchild
  have fits_x : Link.Fits (some x.id) := (Link.fits_some _).2 hx.id_lt
  have fits_y : Link.Fits (some y.id) := (Link.fits_some _).2 hy.id_lt
  rw [Branch.storedIn_join, Branch.storedIn_join]
  -- First the fields of `y`, then those of `x`, each followed by what hangs below.
  refine ⟨⟨hy.id_lt, ?_, ?_⟩, ?_, ?_, ?_, ?_, ⟨hx.id_lt, ?_, ?_⟩, ?_, ?_, ?_, ?_, ?_⟩
  · simp [turned, Contents.number?_adopted_of_not_mem ids.y_inner, hy.height]
  · simp [turned, Contents.number?_adopted_of_not_mem ids.y_inner, hy.balance]
  · simp [turned, Link.parse?_text fits]
  · simp [turned, Contents.link?_adopted_of_not_mem ids.y_inner, ids.ne.symm, hyup]
  · simp [turned, ids.ne.symm, Link.parse?_text fits_x]
  · exact storedIn_turned_aside up parent houter ids.x_outer ids.y_outer ids.outer_inner.symm
  · simp [turned, Contents.number?_adopted_of_not_mem ids.x_inner, hx.height]
  · simp [turned, Contents.number?_adopted_of_not_mem ids.x_inner, hx.balance]
  · simp [turned, ids.ne, Link.parse?_text fits_y]
  · simp [turned, Contents.link?_adopted_of_not_mem ids.x_inner, ids.ne,
      Link.parse?_text hinner.fits]
  · simp [turned, Contents.link?_adopted_of_not_mem ids.x_inner, ids.ne, hxother]
  · exact storedIn_turned_inner up parent hinner ids.nodup_inner ids.x_inner ids.y_inner fits_x
  · exact storedIn_turned_aside up parent hrest ids.x_rest ids.y_rest ids.inner_rest

/-- The keys that a rotation may write: besides those below the link to the subtree, that link. -/
def IsRotated (ns : FileId) (p : Trail) (x y : NodeId) (inner : Link) (k : Key) : Prop :=
  Turned ns x y inner k ∨ k = p.slot ns

theorem isRotated_of_isNumberOf {x y id : NodeId} {inner : Link} (h : id = x ∨ id = y) {k : Key}
    (hk : IsNumberOf ns id k) : IsRotated ns p x y inner k := by
  obtain ⟨f, hf, rfl⟩ := isShape_of_isNumberOf hk
  refine Or.inl (Or.inl ⟨f, hf, ?_⟩)
  rcases h with rfl | rfl
  · exact Or.inl rfl
  · exact Or.inr rfl

theorem isBranch_of_isRotated {k : Key} (hk : IsRotated ns p x.id y.id inner.link k) :
    IsBranch ns p (.join up (.join up outer y inner) x rest) k := by
  rcases hk with (⟨f, hf, rfl | rfl⟩ | ⟨i, hi, rfl⟩) | rfl
  · exact Or.inr ⟨x.id, by simp [Branch.mem_ids_join], f, hf, rfl⟩
  · exact Or.inr ⟨y.id, by simp [Branch.mem_ids_join], f, hf, rfl⟩
  · have := Branch.link_mem_ids hi
    exact Or.inr ⟨i, by simp [Branch.mem_ids_join, this], .parent, trivial, rfl⟩
  · exact Or.inl rfl

/-- The links of a rotation: the child `y` takes the place of `x`, and both keep their numbers. -/
theorem run_rotate_links {ids : List NodeId}
    (h : Focus c ns ids p (.join up (.join up outer y inner) x rest)) :
    ∃ c', (rotate ns up x.id).run c =
        (do let _ ← update ns x.id; let _ ← update ns y.id; return y.id : Script NodeId).run c' ∧
      Focus c' ns ids p (.join up outer y (.join up inner x rest)) ∧
      Contents.Changes (IsRotated ns p x.id y.id inner.link) c c' ∧ Contents.Relinked c c' := by
  obtain ⟨hx, hxp, hxup, -, hchild, -⟩ := Branch.storedIn_join.1 h.branch
  obtain ⟨hy, -, -, hyother, -, hinner⟩ := Branch.storedIn_join.1 hchild
  have fits_x : Link.Fits (some x.id) := (Link.fits_some _).2 hx.id_lt
  have fits_y : Link.Fits (some y.id) := (Link.fits_some _).2 hy.id_lt
  have hp := h.trail
  rw [Branch.link_join] at hxup hp
  have hp₁ := storedIn_turned_trail up p.parent hp h.apart
  have hb₁ := storedIn_turned hp.fits h.branch h.apart
  have same : (Branch.join up outer y (.join up inner x rest)).ids =
      (Branch.join up (.join up outer y inner) x rest).ids := by
    cases up <;> simp [Branch.join]
  refine ⟨(turned c ns up x.id y.id inner.link p.parent).put (p.slot ns).text
    (Link.text (some y.id)), ?_, ⟨hb₁.put_slot ?_ _, ?_, h.ids_congr same, h.nodup⟩, ?_, ?_⟩
  · rw [rotate_eq, Script.run_bind_ok (run_requiredChild hxup),
      Script.run_bind_ok (Node.run_child _ hyother), Script.run_bind_ok (Node.run_parent hxp),
      Script.run_bind_ok (Node.run_setChild up inner.link),
      Script.run_bind_ok (Node.run_adopt _ ns inner.link (some x.id)),
      Script.run_bind_ok (Node.run_setChild up.other (some x.id)),
      Script.run_bind_ok (Node.run_setParent (some y.id)),
      Script.run_bind_ok (Node.run_setParent p.parent)]
    exact Script.run_bind_ok (run_replaceChild hp₁ h.apart.x_trail)
  · rw [same]
    exact h.disjoint
  · rw [Branch.link_join]
    exact hp₁.put_slot h.apart.nodup_trail fits_y
  · have below : Contents.Changes (IsRotated ns p x.id y.id inner.link) c
        (turned c ns up x.id y.id inner.link p.parent) :=
      (changes_turned c ns up x.id y.id inner.link p.parent).mono fun _ => Or.inl
    exact below.put (Or.inr rfl) _
  · exact (relinked_turned c ns up fits_x fits_y hinner.fits hp.fits).put fits_y

/-- A rotation makes `Branch.rotate` of the shape, and gives its new topmost node. -/
theorem run_rotate_fitting {ids : List NodeId}
    (h : Focus c ns ids p (.join up (.join up outer y inner) x rest))
    (lower : (Branch.settleOn up inner x rest).Fitting)
    (upper : (Branch.settleOn up outer y (.settleOn up inner x rest)).Fitting) :
    ∃ c', (rotate ns up x.id).run c = .ok y.id c' ∧
      Focus c' ns ids p (.settleOn up outer y (.settleOn up inner x rest)) ∧
      Contents.Changes (IsRotated ns p x.id y.id inner.link) c c' ∧ Contents.Relinked c c' := by
  obtain ⟨c₁, run₁, focus₁, changes₁, relinked₁⟩ := run_rotate_links h
  -- The lower node is recomputed first, seen from one turn further down.
  rw [← Branch.join_other] at focus₁
  have below : Focus c₁ ns ids (⟨up.other, y, outer⟩ :: p) (.join up inner x rest) :=
    Focus.cons_iff.2 focus₁
  obtain ⟨_, c₂, run₂, focus₂, changes₂⟩ := run_update_join below lower
  have above := Focus.cons_iff.1 focus₂
  rw [Turn.close, Branch.join_other] at above
  obtain ⟨_, c₃, run₃, focus₃, changes₃⟩ := run_update_join above upper
  have only_x : Contents.Changes (IsRotated ns p x.id y.id inner.link) c₁ c₂ :=
    changes₂.mono fun _ => isRotated_of_isNumberOf (Or.inl rfl)
  have only_y : Contents.Changes (IsRotated ns p x.id y.id inner.link) c₂ c₃ :=
    changes₃.mono fun _ => isRotated_of_isNumberOf (Or.inr rfl)
  have relinked₂ := Contents.Relinked.of_changes changes₂ fun _ => not_isLink_of_isNumberOf
  have relinked₃ := Contents.Relinked.of_changes changes₃ fun _ => not_isLink_of_isNumberOf
  refine ⟨c₃, ?_, focus₃, (changes₁.trans only_x).trans only_y,
    (relinked₁.trans relinked₂).trans relinked₃⟩
  rw [run₁, Script.run_bind_ok run₂, Script.run_bind_ok run₃]
  rfl

/-- Above low branches, the numbers that a rotation recomputes fit. -/
theorem run_rotate {ids : List NodeId}
    (h : Focus c ns ids p (.join up (.join up outer y inner) x rest)) {n : Int}
    (small : n ≤ 0x10000000) (houter : outer.Within n) (hinner : inner.Within n)
    (hrest : rest.Within n) :
    ∃ c', (rotate ns up x.id).run c = .ok y.id c' ∧
      Focus c' ns ids p (.settleOn up outer y (.settleOn up inner x rest)) ∧
      Contents.Changes (IsRotated ns p x.id y.id inner.link) c c' := by
  have low : (Branch.settleOn up inner x rest).Within (n + 1) := hinner.settleOn hrest
  have lower := Branch.Within.fitting up x (hinner.mono (by omega)) (hrest.mono (by omega))
  have upper := Branch.Within.fitting up y (houter.mono (by omega)) (low.mono (by omega))
  obtain ⟨c', run, focus, changes, -⟩ := run_rotate_fitting h lower upper
  exact ⟨c', run, focus, changes⟩

end Links

end Tree

end FlatStore
