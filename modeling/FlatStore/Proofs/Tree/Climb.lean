import FlatStore.Proofs.Accesses
import FlatStore.Proofs.Tree.Queries
import FlatStore.Proofs.Tree.Rotation

/-! # Rebalancing in a store

    The walk from a node up to the root does to the stored fields what
    `Trail.climb` does to the shape. Below the walk the tree is balanced, and
    the branch it has reached is at most one level off from what the turns
    above were balanced around (`Trail.Steady`).

    * **Visits**: what rebalancing one node sees and does there (`Visit.Runs`),
      with the rotations that it makes.
    * **Walks** are visits, each at the node above the one before (`Walk`).
      `climb` goes through them all, and makes no other accesses (`Walk.climb`).
    * `run_rebalanceNode`: one visit. A node that is right already is left as it
      is, and one that leans by two is brought down by one rotation or by two.
    * `run_climb`: one turn after the other. Each node on the way is visited
      once, and none leans by more than two (`WalkAlong`).
    * `run_rebalanceFrom`: the whole walk ends, because no way up is longer
      than the number of nodes, and it leaves a balanced tree.
-/

namespace FlatStore

theorem Branch.Within.of_balanced {n : Int} {b : Branch} (h : b.Balanced) (le : b.height ≤ n) :
    b.Within n :=
  ⟨neg_one_le_height h, le⟩

/-- Setting a node above two branches keeps nothing of it but the id. -/
theorem Branch.settleOn_congr (side : Side) (near : Branch) {f g : Fork} (same : g.id = f.id)
    (far : Branch) : settleOn side near g far = settleOn side near f far := by
  cases side <;> simp [settleOn, settle, Fork.over, same]

/-- The balance factor of a node that is two levels higher on one side than on the other. -/
def Side.tilt : Side → Int
  | left => -2
  | right => 2

namespace Tree

variable {c : Contents} {ns : FileId} {ids : List NodeId} {p : Trail}

/-! ### One node -/

/-- The link of a branch to the node above it. -/
theorem Focus.run_parent {b : Branch} {id : NodeId} (h : Focus c ns ids p b)
    (link : b.link = some id) : (Node.parent ns id).run c = .ok p.parent c := by
  cases b with
  | leaf => cases link
  | node l f r =>
    cases link
    exact Node.run_parent h.branch.2.1

/-- The inner grandchild comes up in two rotations, first over the child and then over the node. -/
theorem run_rotate_twice {heavy : Side} {outer near far rest : Branch} {y z x : Fork}
    (h : Focus c ns ids p
      (.join heavy (.join heavy outer y (.join heavy near z far)) x rest)) {n : Int}
    (small : n + 1 ≤ 0x10000000) (houter : outer.Within n) (hnear : near.Within n)
    (hfar : far.Within n) (hrest : rest.Within n) :
    ∃ c', (do
        let _ ← rotate ns heavy.other y.id
        rotate ns heavy x.id : Script NodeId).run c = .ok z.id c' ∧
      Focus c' ns ids p
        (.settleOn heavy (.settleOn heavy outer y near) z (.settleOn heavy far x rest)) ∧
      Contents.Changes
        (IsBranch ns p (.join heavy (.join heavy outer y (.join heavy near z far)) x rest)) c
        c' := by
  -- The first rotation is one of the other side, seen from one turn further down.
  have below : Focus c ns ids (⟨heavy, x, rest⟩ :: p)
      (.join heavy.other (.join heavy.other far z near) y outer) := by
    rw [Branch.join_other, Branch.join_other]
    exact Focus.cons_iff.2 h
  obtain ⟨c₁, run₁, focus₁, changes₁⟩ := run_rotate below (by omega) hfar hnear houter
  rw [Branch.settleOn_other, Branch.settleOn_other, Focus.cons_iff] at focus₁
  obtain ⟨g, hg, shape⟩ := Branch.exists_settleOn heavy (.settleOn heavy outer y near) z far
  simp only [Turn.close, shape] at focus₁
  obtain ⟨c₂, run₂, focus₂, changes₂⟩ := run_rotate focus₁ small (houter.settleOn hnear)
    (hfar.mono (by omega)) (hrest.mono (by omega))
  refine ⟨c₂, ?_, ?_, (changes₁.mono fun k hk => ?_).trans (changes₂.mono fun k hk => ?_)⟩
  · rw [Script.run_bind_ok run₁, run₂, hg]
  · have same := Branch.settleOn_congr heavy (.settleOn heavy outer y near) hg
      (.settleOn heavy far x rest)
    rwa [same] at focus₂
  · have here : IsBranch ns (⟨heavy, x, rest⟩ :: p)
        (.join heavy.other (.join heavy.other far z near) y outer) k := isBranch_of_isRotated hk
    have up := isBranch_close here
    rwa [Turn.close, Branch.join_other, Branch.join_other] at up
  · have here : IsBranch ns p
        (.join heavy (.join heavy (.settleOn heavy outer y near) g far) x rest) k :=
      isBranch_of_isRotated hk
    refine isBranch_of_subset ?_ here
    intro id hid
    simp only [Branch.mem_ids_join, Branch.ids_settleOn, hg] at hid ⊢
    tauto

/-! ### Rotations of a node -/

/-- Turn the edge from a node to its child on the side `up` around. -/
structure Rotation where
  up : Side
  node : NodeId
  deriving DecidableEq, Repr

/-- Carry out rotations below a node, one after the other. Gives the node on top of the subtree
after them. -/
def rotateAll (ns : FileId) (top : NodeId) : List Rotation → Script NodeId
  | [] => return top
  | r :: rotations => do
    let top ← rotate ns r.up r.node
    rotateAll ns top rotations

/-- The ways of bringing a node down: its child on the heavy side comes up over it, and before that,
in a double rotation, the inner grandchild comes up over the child. -/
inductive BringsDown (heavy : Side) (node child : NodeId) : List Rotation → Prop where
  | single : BringsDown heavy node child [⟨heavy, node⟩]
  | double : BringsDown heavy node child [⟨heavy.other, child⟩, ⟨heavy, node⟩]

/-- What is compared before a node is brought down, and which rotations follow. -/
theorem comesTo_lighten {heavy : Side} {outer inner rest : Branch} {y x : Fork}
    (h : Focus c ns ids p (.join heavy (.join heavy outer y inner) x rest)) :
    Script.ComesTo c (lighten ns heavy x.id) (rotateAll ns x.id
      (if outer.height < inner.height then [⟨heavy.other, y.id⟩, ⟨heavy, x.id⟩]
        else [⟨heavy, x.id⟩])) := by
  obtain ⟨-, -, child, -, child_stored, -⟩ := Branch.storedIn_join.1 h.branch
  obtain ⟨-, -, outer_link, inner_link, outer_stored, inner_stored⟩ :=
    Branch.storedIn_join.1 child_stored
  rw [Branch.link_join] at child
  have required : (requiredChild ns heavy x.id).Asks (.space ns) := by
    refine ((asking ns).child heavy x.id).bind fun found => ?_
    cases found <;> trivial
  refine (required.comesTo (run_requiredChild child) _).trans ?_
  refine (((asking ns).child heavy y.id).comesTo (Node.run_child _ outer_link) _).trans ?_
  refine (((asking ns).heightBelow _).comesTo (Node.run_height outer_stored) _).trans ?_
  refine (((asking ns).child heavy.other y.id).comesTo (Node.run_child _ inner_link) _).trans ?_
  refine (((asking ns).heightBelow _).comesTo (Node.run_height inner_stored) _).trans ?_
  by_cases turned : outer.height < inner.height
  · rw [if_pos turned, if_pos turned]
    simp only [rotateAll, bind_pure]
    exact .refl c _
  · rw [if_neg turned, if_neg turned]
    simp only [rotateAll, bind_pure]
    exact .refl c _

/-- A node that leans by two is brought down, with one rotation or with two. -/
theorem run_lighten (heavy : Side) {b rest : Branch} {f : Fork}
    (h : Focus c ns ids p (.join heavy b f rest)) (hb : b.Balanced) (hrest : rest.Balanced)
    (lean : b.height = rest.height + 2) (small : b.height ≤ 0x1000000) :
    ∃ child rotations top c', b.link = some child ∧ BringsDown heavy f.id child rotations ∧
      Script.ComesTo c (lighten ns heavy f.id) (rotateAll ns f.id rotations) ∧
      (rotateAll ns f.id rotations).run c = .ok top c' ∧
      (Branch.lighten heavy (.join heavy b f rest)).link = some top ∧
      Focus c' ns ids p (.lighten heavy (.join heavy b f rest)) ∧
      Contents.Changes (IsBranch ns p (.join heavy b f rest)) c c' := by
  have := Branch.neg_one_le_height hrest
  obtain ⟨outer, y, inner, rfl⟩ :=
    Branch.exists_join_of_height heavy (show -1 < b.height by omega)
  obtain ⟨houter, hinner, height, low, high⟩ := hb.of_join
  have := Branch.neg_one_le_height houter
  have := Branch.neg_one_le_height hinner
  rw [Branch.height_join] at lean small
  have outer_within : outer.Within 0x1000000 := .of_balanced houter (by omega)
  have rest_within : rest.Within 0x1000000 := .of_balanced hrest (by omega)
  have comes := comesTo_lighten h
  by_cases turned : outer.height < inner.height
  · -- The inner grandchild is the higher one and comes up twice.
    obtain ⟨near, z, far, rfl⟩ :=
      Branch.exists_join_of_height heavy (show -1 < inner.height by omega)
    obtain ⟨hnear, hfar, height', low', high'⟩ := hinner.of_join
    have := Branch.neg_one_le_height hnear
    have := Branch.neg_one_le_height hfar
    rw [if_pos turned] at comes
    rw [Branch.lighten_of_lt y z f rest turned]
    rw [Branch.height_join] at high height
    obtain ⟨c', run, focus, changes⟩ := run_rotate_twice h (by omega) outer_within
      (.of_balanced hnear (by omega)) (.of_balanced hfar (by omega)) rest_within
    refine ⟨y.id, _, z.id, c', Branch.link_join .., .double, comes, ?_, by simp, focus, changes⟩
    simpa only [rotateAll, bind_pure] using run
  · rw [if_neg turned] at comes
    rw [Branch.lighten_of_le y f rest (by omega)]
    obtain ⟨c', run, focus, changes⟩ := run_rotate h (by omega) outer_within
      (.of_balanced hinner (by omega)) rest_within
    refine ⟨y.id, _, y.id, c', Branch.link_join .., .single, comes, ?_, by simp, focus,
      changes.mono fun k hk => isBranch_of_isRotated hk⟩
    simpa only [rotateAll, bind_pure] using run

/-! ### Visits -/

/-- One visit of a walk: the node, the balance factor that was found there, the rotations that were
made, the node on top of the subtree after them, and the contents before and after. -/
structure Visit where
  node : NodeId
  balance : Int
  rotations : List Rotation
  top : NodeId
  before : Contents
  after : Contents

namespace Visit

/-- Rebalancing the node goes as the visit says: the node is recomputed, and the rotations are made.
In between, fields are only read. -/
structure Runs (ns : FileId) (v : Visit) : Prop where
  run : (rebalanceNode ns v.node).run v.before = .ok v.top v.after
  parts : ∃ c looks, (update ns v.node).run v.before = .ok v.balance c ∧
    (rotateAll ns v.node v.rotations).run c = .ok v.top v.after ∧
    (∀ a ∈ looks, a.isGet = true) ∧
    (rebalanceNode ns v.node).accesses v.before =
      (update ns v.node).accesses v.before ++
        (looks ++ (rotateAll ns v.node v.rotations).accesses c)

/-- The node leans by two and is brought down, by one rotation or by two. -/
def Rebalances (ns : FileId) (v : Visit) : Prop :=
  ∃ heavy child, v.balance = heavy.tilt ∧
    v.before.link? (.node ns v.node heavy.field) = some (some child) ∧
    BringsDown heavy v.node child v.rotations

/-- The node leans by one at most and stays where it is. -/
def Stands (v : Visit) : Prop := v.balance.natAbs ≤ 1 ∧ v.rotations = []

/-- The reads and writes of the visit, and of the step to the node above. -/
def accesses (ns : FileId) (v : Visit) : List FieldStore.Access :=
  (rebalanceNode ns v.node).accesses v.before ++ (Node.parent ns v.top).accesses v.after

/-- A visit whose node is recomputed first, and then turned as its balance factor asks for. -/
theorem runs_of_comesTo {v : Visit} (updated : (update ns v.node).run v.before = .ok v.balance c)
    (comes : Script.ComesTo c
      (if v.balance = -2 then lighten ns .left v.node
        else if v.balance = 2 then lighten ns .right v.node else return v.node)
      (rotateAll ns v.node v.rotations))
    (turned : (rotateAll ns v.node v.rotations).run c = .ok v.top v.after) : v.Runs ns := by
  obtain ⟨looks, gets, rest⟩ := comes.accesses
  refine ⟨?_, c, looks, updated, turned, gets, ?_⟩
  · rw [rebalanceNode, Script.run_bind_ok updated, comes.run, turned]
  · rw [rebalanceNode, Script.accesses_bind_ok updated, rest]

end Visit

/-! ### Walks -/

/-- Visits from a link up, each at the node above the one before it. -/
inductive Walk (ns : FileId) : Link → Contents → List Visit → Contents → Prop where
  | top (c : Contents) : Walk ns none c [] c
  | visit {v : Visit} {next : Link} {vs : List Visit} {c : Contents} (runs : v.Runs ns)
      (up : (Node.parent ns v.top).run v.after = .ok next v.after)
      (above : Walk ns next v.after vs c) : Walk ns (some v.node) v.before (v :: vs) c

theorem climb_none (ns : FileId) (bound : Nat) : climb ns bound none = pure () := by
  cases bound <;> rfl

/-- Climbing goes through all visits of the walk, one after the other, and does nothing else. -/
theorem Walk.climb {link : Link} {vs : List Visit} {c' : Contents} (h : Walk ns link c vs c')
    {bound : Nat} (far : vs.length ≤ bound) :
    (climb ns bound link).run c = .ok () c' ∧
      (climb ns bound link).accesses c = vs.flatMap (Visit.accesses ns) := by
  -- Every visit takes one from the bound, so it is not used up before the top is reached.
  induction h generalizing bound with
  | top c =>
    rw [climb_none]
    exact ⟨rfl, rfl⟩
  | @visit v next vs c' runs up above ih =>
    cases bound with
    | zero => simp at far
    | succ bound =>
      obtain ⟨run, accesses⟩ := ih (Nat.le_of_succ_le_succ far)
      rw [Tree.climb]
      constructor
      · rw [Script.run_bind_ok runs.run, Script.run_bind_ok up, run]
      · rw [Script.accesses_bind_ok runs.run, Script.accesses_bind_ok up, accesses,
          List.flatMap_cons, Visit.accesses, List.append_assoc]

/-- The walk is one up along a trail: it visits the nodes of the trail, one after the other, and
finds none of them to lean by more than two. -/
structure WalkAlong (ns : FileId) (p : Trail) (c : Contents) (vs : List Visit) (c' : Contents) :
    Prop where
  walk : Walk ns p.parent c vs c'
  nodes : vs.map Visit.node = p.map (Fork.id ∘ Turn.fork)
  lean : ∀ v ∈ vs, -2 ≤ v.balance ∧ v.balance ≤ 2

/-- Rebalancing from the end of a trail succeeds, and it is these visits along the trail and nothing
else: its reads and writes are those of the visits. -/
structure Ascends (ns : FileId) (p : Trail) (c : Contents) (vs : List Visit) (c' : Contents) :
    Prop extends WalkAlong ns p c vs c' where
  run : (rebalanceFrom ns p.parent).run c = .ok () c'
  accesses : (rebalanceFrom ns p.parent).accesses c = vs.flatMap (Visit.accesses ns)

theorem WalkAlong.ascends {vs : List Visit} {c' : Contents} (h : WalkAlong ns p c vs c')
    (far : p.length ≤ walkBound) : Ascends ns p c vs c' := by
  have length : vs.length = p.length := by
    have nodes := congrArg List.length h.nodes
    rwa [List.length_map, List.length_map] at nodes
  obtain ⟨run, accesses⟩ := h.walk.climb (length.trans_le far)
  exact ⟨h, run, accesses⟩

theorem walkAlong_nil (ns : FileId) (c : Contents) : WalkAlong ns [] c [] c :=
  ⟨.top c, rfl, List.forall_mem_nil _⟩

/-- A visit at the top of a branch rebalances its shape. -/
structure Visit.Settles (v : Visit) (ns : FileId) (c : Contents) (ids : List NodeId) (p : Trail)
    (b : Branch) : Prop where
  node : b.link = some v.node
  before : v.before = c
  runs : v.Runs ns
  top : b.rebalance.link = some v.top
  focus : Focus v.after ns ids p b.rebalance
  changes : Contents.Changes (IsBranch ns p b) c v.after
  /-- Nothing is written where all numbers are right. -/
  idle : b.Balanced → v.after = c
  rebalances : v.balance.natAbs = 2 → v.Rebalances ns
  stands : v.balance.natAbs ≤ 1 → v.Stands

/-- A visit of the innermost node, and the walk up from there. -/
theorem WalkAlong.cons {t : Turn} {b : Branch} {v : Visit} {vs : List Visit} {c' : Contents}
    (visit : v.Settles ns c ids p (t.close b)) (lean : v.balance.natAbs ≤ 2)
    (h : WalkAlong ns p v.after vs c') : WalkAlong ns (t :: p) c (v :: vs) c' := by
  have node : v.node = t.fork.id := by
    have top := visit.node
    rw [Turn.close, Branch.link_join] at top
    exact (Option.some.inj top).symm
  have walk := Walk.visit visit.runs (visit.focus.run_parent visit.top) h.walk
  rw [visit.before, node] at walk
  refine ⟨walk, ?_, List.forall_mem_cons.2 ⟨by omega, h.lean⟩⟩
  rw [List.map_cons, h.nodes, node]
  rfl

/-- A node that leans by two is recomputed and brought down. -/
theorem run_rebalance_leaning (heavy : Side) {near far : Branch} {f : Fork}
    (h : Focus c ns ids p (.join heavy near f far)) (hnear : near.Balanced) (hfar : far.Balanced)
    (lean : near.height = far.height + 2) (small : near.height ≤ 0x1000000) :
    ∃ v : Visit, v.Settles ns c ids p (.join heavy near f far) ∧ v.balance = heavy.tilt := by
  have fits := Branch.Within.fitting heavy f (.of_balanced hnear (by omega))
    (.of_balanced hfar (by omega))
  obtain ⟨c₁, updated, focus₁, changes₁⟩ : ∃ c₁, (update ns f.id).run c = .ok heavy.tilt c₁ ∧
      Focus c₁ ns ids p (.settleOn heavy near f far) ∧
      Contents.Changes (IsNumberOf ns f.id) c c₁ := by
    cases heavy with
    | left =>
      obtain ⟨c₁, updated, focus₁, changes₁, -⟩ := run_update_focus h fits
      rw [show far.height - near.height = -2 by omega] at updated
      exact ⟨c₁, updated, focus₁, changes₁⟩
    | right =>
      obtain ⟨c₁, updated, focus₁, changes₁, -⟩ := run_update_focus h fits
      rw [show near.height - far.height = 2 by omega] at updated
      exact ⟨c₁, updated, focus₁, changes₁⟩
  obtain ⟨g, hg, settled⟩ := Branch.exists_settleOn heavy near f far
  rw [settled] at focus₁
  obtain ⟨child, rotations, top, c₂, link, down, comes, turned, top_link, focus₂, changes₂⟩ :=
    run_lighten heavy focus₁ hnear hfar lean small
  rw [hg] at down comes turned
  rw [← settled] at top_link focus₂ changes₂
  have shape : (Branch.join heavy near f far).rebalance =
      .lighten heavy (.settleOn heavy near f far) := by
    rw [Branch.rebalance_join, if_pos lean]
  have child_link := (Branch.storedIn_join.1 h.branch).2.2.1
  rw [link] at child_link
  have chosen : (if heavy.tilt = -2 then lighten ns .left f.id
      else if heavy.tilt = 2 then lighten ns .right f.id else return f.id) =
        lighten ns heavy f.id := by
    cases heavy <;> rfl
  refine ⟨⟨f.id, heavy.tilt, rotations, top, c, c₂⟩, {
    node := Branch.link_join ..
    before := rfl
    runs := Visit.runs_of_comesTo updated (by rwa [chosen]) turned
    top := shape ▸ top_link
    focus := shape ▸ focus₂
    changes := ?_
    idle := ?_
    rebalances := fun _ => ⟨heavy, child, rfl, child_link, down⟩
    stands := ?_ }, rfl⟩
  · have first : Contents.Changes (IsBranch ns p (.join heavy near f far)) c c₁ :=
      changes₁.mono fun k hk => isBranch_of_isNumberOf (Branch.mem_ids_join.2 (Or.inl rfl)) hk
    refine first.trans (changes₂.mono fun k => isBranch_of_subset fun id hid => ?_)
    rwa [Branch.ids_settleOn] at hid
  · -- A node that leans by two has not been balanced.
    intro balanced
    have := balanced.of_join
    omega
  · intro upright
    cases heavy <;> simp [Side.tilt] at upright

/-- One node of the walk: it is recomputed, and brought down if it leans by two. -/
theorem run_rebalanceNode {l r : Branch} {f : Fork} (h : Focus c ns ids p (.node l f r))
    (hl : l.Balanced) (hr : r.Balanced) (low : l.height ≤ r.height + 2)
    (high : r.height ≤ l.height + 2) (small : max l.height r.height ≤ 0x1000000) :
    ∃ v : Visit, v.Settles ns c ids p (.node l f r) ∧ v.balance = r.height - l.height := by
  by_cases left : r.height - l.height = -2
  · rw [left]
    exact run_rebalance_leaning .left h hl hr (by omega) (by omega)
  by_cases right : r.height - l.height = 2
  · rw [right]
    exact run_rebalance_leaning .right h hr hl (by omega) (by omega)
  · have fits := Branch.Within.fitting .left f (.of_balanced hl (by omega))
      (.of_balanced hr (by omega))
    obtain ⟨c₁, updated, focus₁, changes₁, idle₁⟩ := run_update_focus h fits
    have shape : (Branch.node l f r).rebalance = .settle l f r :=
      (if_neg left).trans (if_neg right)
    refine ⟨⟨f.id, r.height - l.height, [], f.id, c, c₁⟩, {
      node := rfl
      before := rfl
      runs := ?_
      top := by rw [shape, Branch.link_settle]
      focus := shape ▸ focus₁
      changes := changes₁.mono fun k hk => isBranch_of_isNumberOf (by simp) hk
      idle := fun balanced => idle₁ balanced.2.2.1
      rebalances := ?_
      stands := fun upright => ⟨upright, rfl⟩ }, rfl⟩
    · refine Visit.runs_of_comesTo updated ?_ rfl
      rw [if_neg left, if_neg right]
      exact .refl c₁ _
    · intro leans
      simp only at leans
      omega

/-! ### The way up -/

/-- Balanced parts of a tree with fewer than 2⁶⁴ nodes are low. -/
theorem height_le_of_subset {b : Branch} (hb : b.Balanced) (nodup : b.ids.Nodup)
    (sub : b.ids ⊆ ids) (size : ids.length + 1 ≤ Word.size64) : b.height ≤ 90 := by
  have := (nodup.subperm sub).length_le
  exact Branch.height_le hb (by omega)

theorem Focus.height_le {b : Branch} (h : Focus c ns ids p b) (hb : b.Balanced)
    (size : ids.length + 1 ≤ Word.size64) : b.height ≤ 90 :=
  height_le_of_subset hb h.nodup_branch (fun _ hid => h.mem_iff.2 (Or.inl hid)) size

theorem Focus.sibling_height_le {t : Turn} {b : Branch} (h : Focus c ns ids (t :: p) b)
    (hs : t.sibling.Balanced) (size : ids.length + 1 ≤ Word.size64) : t.sibling.height ≤ 90 := by
  have nodup := ((Branch.nodup_ids_join _).1 (Focus.cons_iff.1 h).nodup_branch).2.1
  exact height_le_of_subset hs nodup (fun _ hid => h.mem_iff.2 (Or.inr (by simp [hid]))) size

/-- One turn of the walk. -/
theorem run_rebalance_close {t : Turn} {b : Branch} (h : Focus c ns ids (t :: p) b)
    (hb : b.Balanced) (hs : t.sibling.Balanced) (low : b.height ≤ t.sibling.height + 2)
    (high : t.sibling.height ≤ b.height + 2) (size : ids.length + 1 ≤ Word.size64) :
    ∃ v : Visit, v.Settles ns c ids p (t.close b) ∧
      v.balance.natAbs = (b.height - t.sibling.height).natAbs := by
  have height := h.height_le hb size
  have height' := h.sibling_height_le hs size
  have small : max b.height t.sibling.height ≤ 0x1000000 := by omega
  obtain ⟨side, fork, sibling⟩ := t
  have node := Focus.cons_iff.1 h
  cases side with
  | left =>
    obtain ⟨v, settles, balance⟩ := run_rebalanceNode node hb hs low high small
    exact ⟨v, settles, by rw [balance]; simp only; omega⟩
  | right =>
    obtain ⟨v, settles, balance⟩ := run_rebalanceNode node hs hb high low (by rwa [max_comm])
    exact ⟨v, settles, by rw [balance]⟩

/-- The walk up rebalances the shape turn by turn. -/
theorem run_climb {b : Branch} {level : Int} (h : Focus c ns ids p b) (hb : b.Balanced)
    (steady : p.Steady level) (below : level - 1 ≤ b.height) (above : b.height ≤ level + 1)
    (size : ids.length + 1 ≤ Word.size64) :
    ∃ vs c', WalkAlong ns p c vs c' ∧ Focus c' ns ids [] (p.climb b) ∧
      Contents.Changes (IsShape ns ids) c c' := by
  -- By induction on the turns: a visit leaves a balanced branch that is one level off at most.
  induction p generalizing b level c with
  | nil => exact ⟨[], c, walkAlong_nil ns c, h, .refl _ c⟩
  | cons t p ih =>
    obtain ⟨hs, low, high, rest⟩ := steady
    obtain ⟨v, visit, lean⟩ := run_rebalance_close h hb hs (by omega) (by omega) size
    obtain ⟨balanced, lower, upper⟩ := Trail.balanced_rebalance_close hb hs low high below above
    obtain ⟨vs, c', walked, focus, changes⟩ := ih visit.focus balanced rest lower upper
    have first := visit.changes.mono fun k hk => (Focus.cons_iff.1 h).isShape_of_isBranch hk
    exact ⟨v :: vs, c', walked.cons visit (by omega), focus, first.trans changes⟩

/-- No way up is too long to be walked. -/
theorem Focus.length_le_walkBound {b : Branch} (h : Focus c ns ids p b)
    (size : ids.length + 1 ≤ Word.size64) : p.length ≤ walkBound := by
  have nodup := (Trail.nodup_ids_close.1 h.nodup_close).2.1
  have turns := Trail.length_le_ids p
  have nodes := (nodup.subperm fun id hid => h.mem_iff.2 (Or.inr hid)).length_le
  rw [walkBound]
  omega

/-- Rebalancing from the node above a branch that has grown or shrunk by one level. -/
theorem run_rebalanceFrom {b : Branch} {level : Int} (h : Focus c ns ids p b) (hb : b.Balanced)
    (steady : p.Steady level) (below : level - 1 ≤ b.height) (above : b.height ≤ level + 1)
    (size : ids.length + 1 ≤ Word.size64) :
    ∃ vs c', Ascends ns p c vs c' ∧ Focus c' ns ids [] (p.climb b) ∧ (p.climb b).Balanced ∧
      Contents.Changes (IsShape ns ids) c c' := by
  obtain ⟨vs, c', walked, focus, changes⟩ := run_climb h hb steady below above size
  exact ⟨vs, c', walked.ascends (h.length_le_walkBound size), focus,
    Trail.balanced_climb hb steady below above, changes⟩

end Tree

end FlatStore
