import FlatStore.Proofs.Tree.Footprint
import FlatStore.Proofs.Tree.Rotation

/-! # Turning an edge

    A rotation by itself, in any stored tree that is linked up. The tree need
    not be balanced or ordered, and its stored numbers need not be right; its
    heights have to be near enough to each other for 32-bit arithmetic
    (`Word.Roomy`).

    * **Edges** of a tree come with the branches at their two ends and the way
      up (`Edge`). There is one wherever a node has a child (`exists_edge`).
    * `Edge.Turns`: what turning an edge around does to the contents. The tree
      is linked up as before, with its nodes in the same order, the numbers of
      both ends are right, and nothing else was written than the fields of the
      two ends, the parent link of the inner grandchild and the link from above.
    * An edge that was turned around can be turned back (`Edge.back`), and then
      every link is what it was (`Edge.Turns.restores`).
-/

namespace FlatStore

/-! ### Heights near each other -/

/-- The heights are near enough to each other for 32-bit arithmetic: one more than any of them is
less than 2³¹ above any other. -/
def Word.Roomy (heights : List Int) : Prop :=
  ∀ m ∈ heights, ∀ n ∈ heights, m - n + 1 < half32

instance Word.decidableRoomy (heights : List Int) : Decidable (Word.Roomy heights) :=
  inferInstanceAs (Decidable (∀ m ∈ heights, ∀ n ∈ heights, m - n + 1 < half32))

namespace Branch

/-- The heights stored with the nodes, and that of a missing branch. -/
def heights : Branch → List Int
  | leaf => [-1]
  | node l f r => f.height :: (l.heights ++ r.heights)

theorem height_mem_heights (b : Branch) : b.height ∈ b.heights := by
  cases b <;> simp [heights]

theorem neg_one_mem_heights (b : Branch) : -1 ∈ b.heights := by
  induction b with
  | leaf => simp [heights]
  | node l f r ihl => simp [heights, ihl]

theorem mem_heights_join {side : Side} {near : Branch} {f : Fork} {far : Branch} {n : Int} :
    n ∈ (join side near f far).heights ↔ n = f.height ∨ n ∈ near.heights ∨ n ∈ far.heights := by
  cases side <;> simp [join, heights]
  tauto

end Branch

theorem Trail.mem_heights_close {p : Trail} {b : Branch} {n : Int} (h : n ∈ b.heights) :
    n ∈ (p.close b).heights := by
  induction p generalizing b with
  | nil => exact h
  | cons t p ih => exact ih (Branch.mem_heights_join.2 (Or.inr (Or.inl h)))

/-! ### Nodes in the same places -/

namespace Branch

/-- The same nodes hang in the same places, whatever numbers are stored with them. -/
def SameShape : Branch → Branch → Prop
  | leaf, leaf => True
  | node l f r, node l' f' r' => l.SameShape l' ∧ f.id = f'.id ∧ r.SameShape r'
  | _, _ => False

theorem SameShape.refl (b : Branch) : b.SameShape b := by
  induction b with
  | leaf => trivial
  | node l f r ihl ihr => exact ⟨ihl, rfl, ihr⟩

theorem SameShape.join {side : Side} {near near' far far' : Branch} {f f' : Fork}
    (hnear : near.SameShape near') (id : f.id = f'.id) (hfar : far.SameShape far') :
    (join side near f far).SameShape (join side near' f' far') := by
  cases side with
  | left => exact ⟨hnear, id, hfar⟩
  | right => exact ⟨hfar, id, hnear⟩

theorem SameShape.link_eq {b b' : Branch} (h : b.SameShape b') : b.link = b'.link := by
  cases b with
  | leaf =>
    cases b' with
    | leaf => rfl
    | node => exact h.elim
  | node =>
    cases b' with
    | leaf => exact h.elim
    | node => exact congrArg some h.2.1

theorem SameShape.close {b b' : Branch} (h : b.SameShape b') (p : Trail) :
    (p.close b).SameShape (p.close b') := by
  induction p generalizing b b' with
  | nil => exact h
  | cons t p ih => exact ih (.join h rfl (.refl t.sibling))

/-- Between nodes in the same places there are the same links. -/
theorem StoredIn.link?_eq {c c' : Contents} {ns : FileId} {parent : Link} {b b' : Branch}
    (h : b.StoredIn c ns parent) (h' : b'.StoredIn c' ns parent) (same : b.SameShape b')
    {id : NodeId} (mem : id ∈ b.ids) {f : NodeField} (link : (Key.node ns id f).IsLink) :
    c'.link? (.node ns id f) = c.link? (.node ns id f) := by
  -- Both branches are taken apart together, down to the node in question.
  induction b generalizing b' parent with
  | leaf => cases mem
  | node l g r ihl ihr =>
    cases b' with
    | leaf => exact same.elim
    | node l' g' r' =>
      obtain ⟨-, hp, hl, hr, left, right⟩ := h
      obtain ⟨-, hp', hl', hr', left', right'⟩ := h'
      obtain ⟨same_l, top, same_r⟩ := same
      rw [← top] at hp' hl' hr' left' right'
      rcases List.mem_append.1 mem with mem | mem
      · exact ihl left left' same_l mem
      rcases List.mem_cons.1 mem with rfl | mem
      · cases f with
        | left => rw [hl, hl', same_l.link_eq]
        | right => rw [hr, hr', same_r.link_eq]
        | parent => rw [hp, hp']
        | height | balance | data | component => exact link.elim
      · exact ihr right right' same_r mem

/-! ### Finding nodes -/

/-- A tree with a node has a topmost one. -/
theorem exists_link_of_mem {b : Branch} {id : NodeId} (mem : id ∈ b.ids) :
    ∃ top, b.link = some top := by
  cases b with
  | leaf => cases mem
  | node l f r => exact ⟨f.id, rfl⟩

/-- Every node is topmost in some branch of the tree. -/
theorem exists_close (side : Side) {b : Branch} {id : NodeId} (mem : id ∈ b.ids) :
    ∃ (p : Trail) (near : Branch) (f : Fork) (far : Branch), f.id = id ∧
      p.close (.join side near f far) = b := by
  -- The way up to a node inside of a child gets one turn longer, at its outer end.
  induction b with
  | leaf => cases mem
  | node l g r ihl ihr =>
    rcases List.mem_append.1 mem with mem | mem
    · obtain ⟨p, near, f, far, here, rfl⟩ := ihl mem
      exact ⟨p ++ [⟨.left, g, r⟩], near, f, far, here, Trail.close_append _ _ _⟩
    rcases List.mem_cons.1 mem with rfl | mem
    · cases side with
      | left => exact ⟨[], l, g, r, rfl, rfl⟩
      | right => exact ⟨[], r, g, l, rfl, rfl⟩
    · obtain ⟨p, near, f, far, here, rfl⟩ := ihr mem
      exact ⟨p ++ [⟨.right, g, l⟩], near, f, far, here, Trail.close_append _ _ _⟩

/-- Below a link there is a topmost node. -/
theorem exists_join_of_link (side : Side) {b : Branch} {id : NodeId} (h : b.link = some id) :
    ∃ near f far, f.id = id ∧ b = join side near f far := by
  obtain ⟨near, f, far, rfl⟩ := exists_join_of_ne_leaf side (b := b) (by rintro rfl; cases h)
  rw [link_join] at h
  exact ⟨near, f, far, Option.some.inj h, rfl⟩

end Branch

/-! ### Numbers that are right -/

/-- The height stored below a link, -1 below no node. -/
def Contents.heightBelow? (c : Contents) (ns : FileId) : Link → Option Int
  | some id => c.number? (.node ns id .height)
  | none => some (-1)

/-- The two numbers of a node agree with the stored heights of its children. -/
def Contents.SettledAt (c : Contents) (ns : FileId) (id : NodeId) : Prop :=
  ∃ (left right : Link) (below_left below_right : Int),
    c.link? (.node ns id .left) = some left ∧ c.link? (.node ns id .right) = some right ∧
    c.heightBelow? ns left = some below_left ∧ c.heightBelow? ns right = some below_right ∧
    c.number? (.node ns id .height) = some (1 + max below_left below_right) ∧
    c.number? (.node ns id .balance) = some (below_right - below_left)

namespace Branch.StoredIn

variable {c : Contents} {ns : FileId} {parent : Link} {b : Branch}

theorem heightBelow?_eq (h : b.StoredIn c ns parent) :
    c.heightBelow? ns b.link = some b.height := by
  cases b with
  | leaf => rfl
  | node l f r => exact h.1.height

theorem settledAt {side : Side} {near far : Branch} {f : Fork}
    (h : (settleOn side near f far).StoredIn c ns parent) : c.SettledAt ns f.id := by
  cases side <;>
  · obtain ⟨numbers, -, hl, hr, left, right⟩ := h
    exact ⟨_, _, _, _, hl, hr, left.heightBelow?_eq, right.heightBelow?_eq, numbers.height,
      numbers.balance⟩

theorem far_of_settleOn {side : Side} {near far : Branch} {f : Fork}
    (h : (settleOn side near f far).StoredIn c ns parent) : far.StoredIn c ns (some f.id) := by
  cases side with
  | left => exact h.2.2.2.2.2
  | right => exact h.2.2.2.2.1

end Branch.StoredIn

/-- The root link of a tree with a node is stored as one. -/
theorem Contents.link?_root {c : Contents} {ns : FileId} {id : NodeId}
    (h : c.root? ns = some (some id)) : c.link? (.root ns) = some (some id) := by
  unfold root? at h
  split at h
  · cases h
  · next raw hr => rw [link?, text?, hr, Option.bind_some, h]
  · cases h

/-! ### Edges -/

/-- An edge of a tree, from the node `x` down to its child `y` on the side `up`: below `y` the
branches `outer` on that side and `inner` across, below `x` the branch `rest` across, and the way up
from `x`. -/
structure Edge where
  up : Side
  outer : Branch
  y : Fork
  inner : Branch
  x : Fork
  rest : Branch
  trail : Trail

namespace Edge

/-- The branch that has the edge at its top. -/
def branch (e : Edge) : Branch := .join e.up (.join e.up e.outer e.y e.inner) e.x e.rest

/-- The tree that the edge is in. -/
def tree (e : Edge) : Branch := e.trail.close e.branch

/-- The branch with the edge turned around, and the numbers of both ends recomputed. -/
def turnedBranch (e : Edge) : Branch :=
  .settleOn e.up e.outer e.y (.settleOn e.up e.inner e.x e.rest)

/-- The tree with the edge turned around. -/
def turned (e : Edge) : Branch := e.trail.close e.turnedBranch

/-- The edge as it is after it was turned around, from `y` down to `x`. -/
def back (e : Edge) : Edge where
  up := e.up.other
  outer := e.rest
  y := e.x.overOn e.up e.inner e.rest
  inner := e.inner
  x := e.y.overOn e.up e.outer (.settleOn e.up e.inner e.x e.rest)
  rest := e.outer
  trail := e.trail

/-- The heights that the numbers of both ends follow from. -/
def heights (e : Edge) : List Int := [-1, e.outer.height, e.inner.height, e.rest.height]

theorem ids_turned (e : Edge) : e.turned.ids = e.tree.ids := by
  have same : e.turnedBranch.ids = e.branch.ids := by
    unfold turnedBranch branch
    cases e.up <;> simp [Branch.join]
  rw [turned, tree, Trail.ids_close, Trail.ids_close, same]

theorem tree_back (e : Edge) : e.back.tree = e.turned := by
  rw [tree, turned, branch, turnedBranch]
  simp only [back, Branch.join_other, Branch.settleOn_eq_join]

/-- An edge that is turned around and back joins the same nodes in the same places. -/
theorem sameShape_back (e : Edge) : e.tree.SameShape e.back.turned := by
  rw [← tree_back]
  refine Branch.SameShape.close ?_ e.trail
  unfold branch
  simp only [back, Side.other_other]
  exact .join (.join (.refl _) (by simp) (.refl _)) (by simp) (.refl _)

theorem heights_subset (e : Edge) {n : Int} (h : n ∈ e.heights) : n ∈ e.tree.heights := by
  refine Trail.mem_heights_close ?_
  simp only [heights, List.mem_cons, List.not_mem_nil, or_false] at h
  simp only [branch, Branch.mem_heights_join]
  -- Somewhere below `rest` a branch is missing, or it is missing itself.
  rcases h with rfl | rfl | rfl | rfl
  · exact Or.inr (Or.inr e.rest.neg_one_mem_heights)
  · exact Or.inr (Or.inl (Or.inr (Or.inl e.outer.height_mem_heights)))
  · exact Or.inr (Or.inl (Or.inr (Or.inr e.inner.height_mem_heights)))
  · exact Or.inr (Or.inr e.rest.height_mem_heights)

theorem mem_heights_back (e : Edge) {n : Int} : n ∈ e.back.heights ↔ n ∈ e.heights := by
  simp only [heights, back, List.mem_cons, List.not_mem_nil, or_false]
  tauto

/-- Where the heights are near each other, the numbers of both ends fit. -/
theorem fitting (e : Edge) (room : Word.Roomy e.heights) :
    (Branch.settleOn e.up e.inner e.x e.rest).Fitting ∧ e.turnedBranch.Fitting := by
  simp only [Word.Roomy, heights, List.forall_mem_cons, List.not_mem_nil] at room
  refine ⟨Branch.fitting_settleOn _ _ ?_ ?_ ?_, Branch.fitting_settleOn _ _ ?_ ?_ ?_⟩
  all_goals
    simp only [Word.Fits32, Branch.height_settleOn]
    omega

end Edge

namespace Tree

variable {c : Contents} {ns : FileId}

/-- The nodes of the tree are stored with all links between them, downwards and upwards, and the
root link leads to the topmost one. -/
abbrev WellLinked (c : Contents) (ns : FileId) (tree : Branch) : Prop := Focus c ns tree.ids [] tree

theorem wellLinked_iff {p : Trail} {b : Branch} :
    WellLinked c ns (p.close b) ↔ Focus c ns (p.close b).ids p b := by
  have same : Focus c ns (p.close b).ids (p ++ []) b ↔ WellLinked c ns (p.close b) :=
    Focus.append_iff
  rw [List.append_nil] at same
  exact same.symm

/-- Where a node has a child, there is an edge. -/
theorem exists_edge {tree : Branch} (linked : WellLinked c ns tree) {up : Side} {x y : NodeId}
    (mem : x ∈ tree.ids) (child : c.link? (.node ns x up.field) = some (some y)) :
    ∃ e : Edge, e.tree = tree ∧ e.up = up ∧ e.x.id = x ∧ e.y.id = y := by
  obtain ⟨p, near, f, rest, rfl, rfl⟩ := Branch.exists_close up mem
  obtain ⟨-, -, link, -⟩ := Branch.storedIn_join.1 (wellLinked_iff.1 linked).branch
  rw [link] at child
  obtain ⟨outer, g, inner, rfl, rfl⟩ := Branch.exists_join_of_link up (Option.some.inj child)
  exact ⟨⟨up, outer, g, inner, f, rest, p⟩, rfl, rfl, rfl, rfl⟩

end Tree

namespace Edge

open FlatStore.Tree

variable {c c' c'' : Contents} {ns : FileId} {e : Edge}

/-- The keys that turning the edge may write: links and numbers of both ends, the parent link of the
inner grandchild, and the one link from above. -/
def Writes (e : Edge) (ns : FileId) (k : Key) : Prop :=
  IsRotated ns e.trail e.x.id e.y.id e.inner.link k

theorem writes_back {k : Key} : e.back.Writes ns k ↔ e.Writes ns k := by
  simp only [Writes, IsRotated, Turned, back, Fork.id_overOn, or_comm]

/-- What turning the edge does to the contents: the tree is linked up with the edge turned around,
the numbers of both ends agree with those of their children, and only `Edge.Writes` were written,
those of them that are links with links. -/
structure Turns (e : Edge) (ns : FileId) (c c' : Contents) : Prop where
  linked : WellLinked c' ns e.turned
  lower : c'.SettledAt ns e.x.id
  upper : c'.SettledAt ns e.y.id
  frame : ∀ key : Bytes, c' key ≠ c key → ∃ k : Key, e.Writes ns k ∧ k.text.toUTF8 = key
  relinked : c.Relinked c'

/-- Turning an edge succeeds, and gives its lower end, which then stands on top. -/
theorem run_rotate (linked : WellLinked c ns e.tree) (room : Word.Roomy e.heights) :
    ∃ c', (rotate ns e.up e.x.id).run c = .ok e.y.id c' ∧ e.Turns ns c c' := by
  obtain ⟨lower, upper⟩ := e.fitting room
  obtain ⟨c', run, focus, changes, relinked⟩ :=
    run_rotate_fitting (wellLinked_iff.1 linked) lower upper
  -- A rotation writes no other texts than keys of its namespace.
  have within : (rotate ns e.up e.x.id).Within (.space ns) := (staying ns).rotate e.up e.x.id
  have left : leftBy ((rotate ns e.up e.x.id).run c) = c' := by
    rw [run]
    rfl
  refine ⟨c', run, ?_, focus.branch.far_of_settleOn.settledAt, focus.branch.settledAt, ?_,
    relinked⟩
  · have order : (e.trail.close e.turnedBranch).ids = (e.trail.close e.branch).ids := e.ids_turned
    rw [turned, wellLinked_iff, order]
    exact focus
  · intro key changed
    rw [← left] at changes changed
    exact within.exists_key changes changed

theorem Turns.unchanged (h : e.Turns ns c c') {k : Key} (hk : k.Local)
    (spared : ¬ e.Writes ns k) : c' k.text.toUTF8 = c k.text.toUTF8 := by
  by_contra changed
  obtain ⟨k', written, same⟩ := h.frame _ changed
  obtain rfl : k = k' := (Key.text_inj hk).1 (Contents.toUTF8_inj.1 same.symm)
  exact spared written

/-- Turning an edge around and back restores all links. -/
theorem Turns.restores (linked : WellLinked c ns e.tree) (there : e.Turns ns c c')
    (back : e.back.Turns ns c' c'') {k : Key} (link : k.IsLink) : c''.link? k = c.link? k := by
  by_cases written : e.Writes ns k
  · have focus := wellLinked_iff.1 linked
    -- What turning may write belongs to the tree, and its nodes are in their old places.
    rcases focus.isShape_of_isBranch (isBranch_of_isRotated written) with rfl | ⟨id, mem, f, -, rfl⟩
    · -- The root link could be absent only if there was no node.
      have inside : e.x.id ∈ e.branch.ids := Branch.mem_ids_join.2 (Or.inl rfl)
      obtain ⟨top, htop⟩ : ∃ top, e.tree.link = some top :=
        Branch.exists_link_of_mem (focus.mem_iff.2 (Or.inl inside))
      have root := linked.trail
      have root' := back.linked.trail
      rw [htop] at root
      rw [← e.sameShape_back.link_eq, htop] at root'
      rw [Contents.link?_root root, Contents.link?_root root']
    · exact linked.branch.link?_eq back.linked.branch e.sameShape_back mem link
  · have first := there.unchanged link.isLocal written
    have second := back.unchanged link.isLocal fun hk => written (writes_back.1 hk)
    rw [Contents.link?, Contents.text?, Contents.read, second, first]
    rfl

end Edge

namespace Tree

variable {σ : Type} [ByteStore σ] {view : StoreView σ} {f : FieldStore σ} {c : Contents}
  {ns : FileId} {tree : Branch} {up : Side} {x y : NodeId}

/-- Take a tree that is linked up and whose heights are near each other, whether or not it is
balanced or ordered and whatever numbers its nodes have, and in it a node `x` with a child `y` on
the side `up`. The rotation that brings `y` up succeeds. It turns the edge between the two around,
so that the tree is linked up again, with its nodes in the same order; the numbers of the two agree
with those of their children; and nothing else is written but links and numbers of the two, the
parent link of the inner grandchild, and the one link from above. The rotation that brings `x` up
again succeeds as well and restores all links, also in the form in which they were written. -/
theorem rotation_turns_one_edge (shows : f.Shows view c) (linked : WellLinked c ns tree)
    (room : Word.Roomy tree.heights) (mem : x ∈ tree.ids)
    (child : c.link? (.node ns x up.field) = some (some y))
    (takes : view.TakesAll ((rotate ns up x).writes c)) :
    ∃ (e : Edge) (f' : FieldStore σ) (c' : Contents),
      e.tree = tree ∧ e.up = up ∧ e.x.id = x ∧ e.y.id = y ∧
      FieldStore.perform (rotate ns up x) f = .ok y f' ∧ f'.Shows view c' ∧
      e.Turns ns c c' ∧ e.turned.ids = tree.ids ∧
      (view.TakesAll ((rotate ns up.other y).writes c') →
        ∃ (f'' : FieldStore σ) (c'' : Contents),
          FieldStore.perform (rotate ns up.other y) f' = .ok x f'' ∧ f''.Shows view c'' ∧
          ∀ k : Key, k.IsLink → c''.link? k = c.link? k ∧
            ∀ link : Link, link.Fits → c.text? k = some link.text →
              c''.text? k = some link.text) := by
  obtain ⟨e, rfl, rfl, rfl, rfl⟩ := exists_edge linked mem child
  have near : Word.Roomy e.heights := fun m hm n hn =>
    room m (e.heights_subset hm) n (e.heights_subset hn)
  -- Only three of the heights matter, here and on the way back.
  obtain ⟨c', run, turns⟩ := Edge.run_rotate linked near
  obtain ⟨f', performed, shows'⟩ := FieldStore.perform_ok shows run takes
  refine ⟨e, f', c', rfl, rfl, rfl, rfl, performed, shows', turns, e.ids_turned, fun takes' => ?_⟩
  have linked' : WellLinked c' ns e.back.tree := by
    rw [Edge.tree_back]
    exact turns.linked
  have near' : Word.Roomy e.back.heights := fun m hm n hn =>
    near m (e.mem_heights_back.1 hm) n (e.mem_heights_back.1 hn)
  obtain ⟨c'', run', turns'⟩ := Edge.run_rotate linked' near'
  simp only [Edge.back, Fork.id_overOn] at run'
  obtain ⟨f'', performed', shows''⟩ := FieldStore.perform_ok shows' run' takes'
  refine ⟨f'', c'', performed', shows'', fun k link => ?_⟩
  have same := turns.restores linked turns' link
  exact ⟨same, fun _ => (turns.relinked.trans turns'.relinked).text?_eq link same⟩

/-- Five nodes are made as leaves and then hung below each other, so the numbers of three of them
are wrong. The edge from node 4 to node 2, with node 3 between them, is turned around and back. -/
theorem edge_of_linked_leaves_is_turned :
    ∃ (f f' f'' : FieldStore Memory) (c c' c'' : Contents) (e : Edge),
      e.tree = .node (.node (.node (.node .leaf ⟨1, 0, 0⟩ .leaf) ⟨2, 0, 0⟩
        (.node .leaf ⟨3, 0, 0⟩ .leaf)) ⟨4, 0, 0⟩ .leaf) ⟨5, 0, 0⟩ .leaf ∧
      f.Shows Memory.view c ∧ WellLinked c 1 e.tree ∧
      FieldStore.perform (rotate 1 .left 4) f = .ok 2 f' ∧ f'.Shows Memory.view c' ∧
      e.Turns 1 c c' ∧ e.turned.ids = [1, 2, 3, 4, 5] ∧
      FieldStore.perform (rotate 1 .right 2) f' = .ok 4 f'' ∧ f''.Shows Memory.view c'' ∧
      c''.link? (.node 1 5 .left) = some (some 4) ∧
      c''.text? (.node 1 3 .parent) = some "2" := by
  let build : Script Unit := do
    [1, 2, 3, 4, 5].forM fun id => Node.create 1 id [] "" none
    [(2, Side.left, 1), (2, .right, 3), (4, .left, 2), (5, .left, 4)].forM
      fun (parent, side, child) => do
        Node.setChild 1 side parent (some child)
        Node.setParent 1 child (some parent)
    setRoot 1 (some 5)
  have shows := FieldStore.perform_left shows_empty (s := build) fun _ _ => trivial
  set c := leftBy (build.run (Memory.view.contents Memory.empty))
  have root : c.root? 1 = some (some 5) := by decide +kernel
  have linked : WellLinked c 1 (.node (.node (.node (.node .leaf ⟨1, 0, 0⟩ .leaf) ⟨2, 0, 0⟩
      (.node .leaf ⟨3, 0, 0⟩ .leaf)) ⟨4, 0, 0⟩ .leaf) ⟨5, 0, 0⟩ .leaf) :=
    ⟨by decide +kernel, root, rfl, by decide +kernel⟩
  have child : c.link? (.node 1 4 Side.left.field) = some (some 2) := by decide +kernel
  have above : c.link? (.node 1 5 .left) = some (some 4) := by decide +kernel
  have inner : c.text? (.node 1 3 .parent) = some (Link.text (some 2)) := by decide +kernel
  obtain ⟨e, f', c', tree, -, -, -, performed, shows', turns, order, back⟩ :=
    rotation_turns_one_edge shows linked (by decide +kernel) (by decide +kernel) child
      fun _ _ => trivial
  obtain ⟨f'', c'', performed', shows'', links⟩ := back fun _ _ => trivial
  rw [← tree] at linked
  refine ⟨_, f', f'', c, c', c'', e, tree, shows, linked, performed, shows', turns, order,
    performed', shows'', ?_, ?_⟩
  · rw [(links (.node 1 5 .left) trivial).1, above]
  · exact (links (.node 1 3 .parent) trivial).2 _ ((Link.fits_some 2).2 (by decide)) inner

end Tree

end FlatStore
