import FlatStore.Proofs.Tree.Run

/-! # How a tree grows

    A new leaf makes some of the subtrees above it one level higher. How the
    walk up meets them depends on the two heights below each node alone.

    * A branch that has grown has a child one level higher than the other, but
      for the leaf itself (`Branch.Lopsided`).
    * Next to a branch that is lower already, it leans by two. Bringing the
      node down gives the subtree back the height that it had before, with one
      rotation or with two (`height_lighten`).
    * Above a subtree with its old height the tree is right as it is, and the
      walk writes nothing (`run_climb_idle`).

    So an insert rebalances one node at most, and above that node it changes
    nothing but the one link to the subtree (`insert_rebalances_once`).
-/

namespace FlatStore

/-! ### Shapes -/

namespace Branch

/-- The two heights below the topmost node differ. -/
def Lopsided : Branch → Prop
  | leaf => False
  | node l _ r => l.height ≠ r.height

theorem lopsided_join {side : Side} {near far : Branch} {f : Fork} :
    (join side near f far).Lopsided ↔ near.height ≠ far.height := by
  cases side with
  | left => rfl
  | right => exact ne_comm

theorem lopsided_settleOn {side : Side} {near far : Branch} {f : Fork} :
    (settleOn side near f far).Lopsided ↔ near.height ≠ far.height := by
  obtain ⟨g, -, same⟩ := exists_settleOn side near f far
  rw [same, lopsided_join]

/-- Rebalancing a balanced branch leaves it as it is. -/
theorem rebalance_of_balanced {b : Branch} (h : b.Balanced) : b.rebalance = b := by
  cases b with
  | leaf => rfl
  | node l f r =>
    obtain ⟨-, -, right, low, high⟩ := h
    have balance : f.balance = r.height - l.height := congrArg Fork.balance right
    rw [rebalance, if_neg (by omega), if_neg (by omega), settle, ← right]

/-- A node that leans by two because its lopsided child has grown is brought down to the height that
it had before. -/
theorem height_lighten (heavy : Side) {b rest : Branch} (f : Fork) (hb : b.Balanced)
    (hrest : rest.Balanced) (lean : b.height = rest.height + 2) (lopsided : b.Lopsided) :
    (lighten heavy (join heavy b f rest)).height = b.height := by
  have := neg_one_le_height hrest
  obtain ⟨outer, y, inner, rfl⟩ := exists_join_of_height heavy (show -1 < b.height by omega)
  obtain ⟨houter, hinner, height, low, high⟩ := hb.of_join
  rw [lopsided_join] at lopsided
  rw [height_join] at lean ⊢
  by_cases turned : outer.height < inner.height
  · -- Both halves of the inner grandchild are low enough for one level below the top.
    have := neg_one_le_height houter
    obtain ⟨near, z, far, rfl⟩ := exists_join_of_height heavy (show -1 < inner.height by omega)
    obtain ⟨hnear, hfar, height', low', high'⟩ := hinner.of_join
    rw [lighten_of_lt y z f rest turned]
    rw [height_join] at turned low high height lopsided
    simp only [height_settleOn]
    omega
  · rw [lighten_of_le y f rest (by omega)]
    simp only [height_settleOn]
    omega

end Branch

/-- Only the height of a branch counts for the balance of the node above it. -/
theorem Turn.balanced_close {t : Turn} {b₀ b : Branch} (h : (t.close b₀).Balanced)
    (hb : b.Balanced) (same : b.height = b₀.height) : (t.close b).Balanced := by
  obtain ⟨side, fork, sibling⟩ := t
  cases side with
  | left =>
    obtain ⟨-, hs, right, low, high⟩ := h
    refine ⟨hb, hs, right.trans ?_, low, high⟩
    rw [Fork.over, Fork.over, same]
  | right =>
    obtain ⟨hs, -, right, low, high⟩ := h
    refine ⟨hs, hb, right.trans ?_, low, high⟩
    rw [Fork.over, Fork.over, same]

/-- Only the height of a branch counts for the balance of the tree around it. -/
theorem Trail.balanced_close {p : Trail} {b₀ b : Branch} (h : (p.close b₀).Balanced)
    (hb : b.Balanced) (same : b.height = b₀.height) : (p.close b).Balanced := by
  induction p generalizing b₀ b with
  | nil => exact hb
  | cons t p ih =>
    obtain ⟨top, -⟩ := Trail.steady_of_balanced (p := p) h
    exact ih h (Turn.balanced_close top hb same) (by simp [Turn.close])

/-- The topmost node of a tree is that of its last turn, whatever hangs below. -/
theorem Trail.link_close_congr {p : Trail} {b b' : Branch} (same : b.link = b'.link) :
    (p.close b).link = (p.close b').link := by
  induction p generalizing b b' with
  | nil => exact same
  | cons t p ih => exact ih (by simp [Turn.close])

theorem Trail.link_close_cons {p : Trail} {t : Turn} {id : NodeId}
    (h : (p.close .leaf).link = some id) : (Trail.close (t :: p) .leaf).link = some id := by
  cases p with
  | nil => cases h
  | cons s p =>
    have same : (s.close (t.close .leaf)).link = (s.close .leaf).link := by simp [Turn.close]
    exact (link_close_congr (p := p) same).trans h

/-- The branch `b` stands where `b₀` stood and is one level higher. It leans to one side, unless it
is the first node there. -/
structure Branch.Grown (b₀ b : Branch) : Prop where
  balanced : b.Balanced
  height : b.height = b₀.height + 1
  lopsided : b₀ = .leaf ∨ b.Lopsided

/-- What becomes of a branch that has grown, one turn further up: the node leans by two and is
brought down to its old height; or its sibling was higher, and it keeps its height; or the whole
branch has grown. -/
theorem Branch.Grown.close {t : Turn} {b₀ b : Branch} (h : Grown b₀ b)
    (h₀ : (t.close b₀).Balanced) :
    (b.height = t.sibling.height + 2 ∧ (t.close b).rebalance.Balanced ∧
      (t.close b).rebalance.height = (t.close b₀).height) ∨
    ((b.height - t.sibling.height).natAbs ≤ 1 ∧ (t.close b).rebalance.Balanced ∧
      ((t.close b).rebalance.height = (t.close b₀).height ∨
        Grown (t.close b₀) (t.close b).rebalance)) := by
  obtain ⟨hb₀, hs, height₀, low, high⟩ := h₀.of_join
  have height := h.height
  have top₀ : (t.close b₀).height = 1 + max b₀.height t.sibling.height := by
    rw [Turn.close, height_join, height₀]
  obtain ⟨balanced, -, -, -⟩ := balanced_rebalance t.side t.fork h.balanced hs (by omega) (by omega)
  rw [top₀]
  by_cases lean : b.height = t.sibling.height + 2
  · refine Or.inl ⟨lean, balanced, ?_⟩
    have lopsided : b.Lopsided := by
      refine h.lopsided.resolve_left ?_
      rintro rfl
      have := neg_one_le_height hs
      rw [height_leaf] at height
      omega
    obtain ⟨g, -, same⟩ := exists_settleOn t.side b t.fork t.sibling
    rw [Turn.close, rebalance_join, if_pos lean, same,
      height_lighten t.side g h.balanced hs lean lopsided]
    omega
  · have settled : (t.close b).rebalance = settleOn t.side b t.fork t.sibling := by
      rw [Turn.close, rebalance_join, if_neg lean, if_neg (by omega)]
    refine Or.inr ⟨by omega, balanced, ?_⟩
    by_cases level : b.height = t.sibling.height
    · refine Or.inl ?_
      rw [settled, height_settleOn]
      omega
    · refine Or.inr ⟨balanced, ?_, Or.inr ?_⟩
      · rw [settled, height_settleOn, top₀]
        omega
      · rw [settled, lopsided_settleOn]
        exact level

namespace Tree

variable {c : Contents} {ns : FileId} {ids : List NodeId} {p q : Trail} {b : Branch}

/-! ### The walk -/

/-- Some levels up, the keys of a branch are keys of the branch there. -/
theorem isBranch_close_append {k : Key} (h : IsBranch ns (p ++ q) b k) :
    IsBranch ns q (p.close b) k := by
  induction p generalizing b with
  | nil => exact h
  | cons t p ih => exact ih (isBranch_close h)

/-- A visit that finds everything right. -/
def Visit.Idles (v : Visit) : Prop := v.after = v.before ∧ v.Stands

/-- Where the tree is balanced already, the walk up writes nothing. -/
theorem run_climb_idle (h : Focus c ns ids p b) (balanced : (p.close b).Balanced)
    (size : ids.length + 1 ≤ Word.size64) :
    ∃ vs, WalkAlong ns p c vs c ∧ ∀ v ∈ vs, v.Idles := by
  induction p generalizing b with
  | nil => exact ⟨[], walkAlong_nil ns c, List.forall_mem_nil _⟩
  | cons t p ih =>
    obtain ⟨top, -⟩ := Trail.steady_of_balanced (p := p) balanced
    obtain ⟨hb, hs, -, low, high⟩ := top.of_join
    obtain ⟨v, visit, lean⟩ := run_rebalance_close h hb hs (by omega) (by omega) size
    have same : v.after = c := visit.idle top
    have focus := visit.focus
    rw [same, Branch.rebalance_of_balanced top] at focus
    obtain ⟨vs, walked, idle⟩ := ih focus balanced
    have here : v.Idles := ⟨same.trans visit.before.symm, visit.stands (by omega)⟩
    refine ⟨v :: vs, .cons visit (by omega) ?_, List.forall_mem_cons.2 ⟨here, idle⟩⟩
    rwa [same]

/-- Of the visits along a trail one rebalances its node, that on top of the turns `lower`. Those
before it turn nothing, and those behind it find everything right. -/
structure RebalancesAt (ns : FileId) (lower : Trail) (vs below : List Visit) (v : Visit)
    (above : List Visit) : Prop where
  visits : vs = below ++ v :: above
  node : (lower.close .leaf).link = some v.node
  rebalances : v.Rebalances ns
  below : ∀ u ∈ below, u.Stands
  above : ∀ u ∈ above, u.Idles

/-- The walk up from a branch that has grown rebalances no node; or else just one, and above that
one it changes only the link to it. -/
theorem run_climb_grown {b₀ : Branch} (h : Focus c ns ids p b) (balanced : (p.close b₀).Balanced)
    (grown : Branch.Grown b₀ b) (size : ids.length + 1 ≤ Word.size64) :
    ∃ vs c', WalkAlong ns p c vs c' ∧ ((∀ v ∈ vs, v.Stands) ∨
      ∃ lower q below v above, p = lower ++ q ∧ RebalancesAt ns lower vs below v above ∧
        c'.slot? ns q = some (some v.top) ∧
        Contents.Changes (IsBranch ns q (lower.close b)) c c') := by
  -- By induction on the turns, as long as the branch below has grown. At the first one where the
  -- subtree is as high as before, the rest of the walk is idle.
  induction p generalizing b₀ b c with
  | nil => exact ⟨[], c, walkAlong_nil ns c, Or.inl (List.forall_mem_nil _)⟩
  | cons t p ih =>
    obtain ⟨top₀, -⟩ := Trail.steady_of_balanced (p := p) balanced
    obtain ⟨hb₀, hs, -, low, high⟩ := top₀.of_join
    have height := grown.height
    obtain ⟨v, visit, lean⟩ :=
      run_rebalance_close h grown.balanced hs (by omega) (by omega) size
    rcases grown.close top₀ with ⟨heavy, hb', same⟩ | ⟨light, hb', outcome⟩
    · -- The subtree has its old height back, and everything above it is right.
      have whole := Trail.balanced_close (p := p) balanced hb' same
      obtain ⟨vs, walked, idle⟩ := run_climb_idle visit.focus whole size
      refine ⟨v :: vs, v.after, walked.cons visit (by omega), Or.inr ⟨[t], p, [], v, vs, rfl,
        ⟨rfl, ?_, visit.rebalances (by omega), List.forall_mem_nil _, idle⟩, ?_, visit.changes⟩⟩
      · have node := visit.node
        rw [Turn.close, Branch.link_join] at node
        rw [Trail.close, Trail.close, Turn.close, Branch.link_join, node]
      · rw [slot?_of_storedIn visit.focus.trail, visit.top]
    · have stands := visit.stands (by omega)
      rcases outcome with same | grown'
      · -- The sibling was higher, so the subtree is as high as before.
        have whole := Trail.balanced_close (p := p) balanced hb' same
        obtain ⟨vs, walked, idle⟩ := run_climb_idle visit.focus whole size
        exact ⟨v :: vs, v.after, walked.cons visit (by omega),
          Or.inl (List.forall_mem_cons.2 ⟨stands, fun u hu => (idle u hu).2⟩)⟩
      · obtain ⟨vs, c', walked, rest⟩ := ih visit.focus balanced grown'
        refine ⟨v :: vs, c', walked.cons visit (by omega), ?_⟩
        rcases rest with none | ⟨lower, q, below, u, above, rfl, at_u, slot, changes⟩
        · exact Or.inl (List.forall_mem_cons.2 ⟨stands, none⟩)
        · -- The branch one turn further up was rebalanced there, or not at all.
          have ids_eq :
              (lower.close (t.close b).rebalance).ids = (lower.close (t.close b)).ids := by
            rw [Trail.ids_close, Trail.ids_close, Branch.ids_rebalance]
          have first := visit.changes.mono fun k => isBranch_close_append
          have behind := changes.mono fun k => isBranch_of_subset fun id hid => ids_eq ▸ hid
          exact Or.inr ⟨t :: lower, q, v :: below, u, above, rfl,
            ⟨congrArg (v :: ·) at_u.visits, Trail.link_close_cons at_u.node, at_u.rebalances,
              List.forall_mem_cons.2 ⟨stands, at_u.below⟩, at_u.above⟩, slot, first.trans behind⟩

/-! ### Around a branch -/

/-- The fields of the nodes around a branch, and the root link. -/
def IsAround (ns : FileId) (q : Trail) (k : Key) : Prop :=
  k = .root ns ∨ ∃ id ∈ q.ids, ∃ f : NodeField, k = .node ns id f

namespace IsAround

variable {k : Key}

/-- Of the fields around a branch, only the link to it is one of the branch. -/
theorem not_isBranch (around : IsAround ns q k) (focus : Focus c ns ids q b)
    (other : k ≠ q.slot ns) : ¬ IsBranch ns q b k := by
  rintro (slot | ⟨id, hid, f, -, rfl⟩)
  · exact other slot
  · rcases around with he | ⟨id', hid', g, he⟩
    · cases he
    · obtain ⟨-, rfl, -⟩ := Key.node.inj he
      exact focus.disjoint hid hid'

/-- What is written to attach a leaf inside of a branch is not around it. -/
theorem not_isAttached {lower : Trail} {leaf top : NodeId} (around : IsAround ns q k)
    (focus : Focus c ns ids (lower ++ q) .leaf) (inside : (lower.close .leaf).link = some top)
    (new : leaf ∉ ids) : ¬ IsAttached ns leaf ((lower ++ q).slot ns) k := by
  have above := Focus.append_iff.1 focus
  cases lower with
  | nil => cases inside
  | cons s lower =>
    have low : s.fork.id ∈ (Trail.close lower (s.close .leaf)).ids :=
      Trail.mem_ids_close.2 (Or.inl (Branch.mem_ids_join.2 (Or.inl rfl)))
    rcases around with rfl | ⟨id, hid, f, rfl⟩
    · rintro (hk | ⟨g, he⟩ | he | he)
      · exact IdPool.not_isPool_root _ _ hk
      all_goals cases he
    · rintro (hk | ⟨g, he⟩ | he | he)
      · exact IdPool.not_isPool_node _ _ _ _ hk
      · obtain ⟨-, rfl, -⟩ := Key.node.inj he
        exact new (above.mem_iff.2 (Or.inr hid))
      · obtain ⟨-, rfl, -⟩ := Key.node.inj he
        exact above.disjoint low hid
      · cases he

end IsAround

/-! ### Inserts -/

variable {t : Tree} {d : Dictionary} {lost free : List NodeId} {high : Nat} {key : List String}

/-- Inserting a new key, with the walk up from its leaf. -/
theorem StoredBeside.run_insert_new (h : StoredBeside t c lost b d free high) (value : String)
    (arity : key.length = t.arity) (room : high + 1 < Word.size64)
    (absent : d.contains t.orders key = false) :
    ∃ p c₁ vs c₂, Trail.StoredIn c t.ns none p ∧
      (t.attach key value).run c = .ok (Trail.parent p) c₁ ∧ Ascends t.ns p c₁ vs c₂ ∧
      ((∀ v ∈ vs, v.Stands) ∨
        ∃ lower q below v above, p = lower ++ q ∧ RebalancesAt t.ns lower vs below v above ∧
          c.slot? t.ns q = some (some v.node) ∧ c₂.slot? t.ns q = some (some v.top) ∧
          ∀ k, IsAround t.ns q k → k ≠ q.slot t.ns → c₂ k.text.toUTF8 = c k.text.toUTF8) := by
  obtain ⟨p, pre, post, placed, miss⟩ := h.run_place_absent arity (by rw [walkBound]; omega) absent
  obtain ⟨leaf, free', high', c₁, run₁, uneven, -, bound, new, -, changes₁⟩ :=
    h.run_attach_new value miss placed arity room
  have size : (p.close (.single leaf)).ids.length + 1 ≤ Word.size64 := by
    have := uneven.kept.length_le
    omega
  have grown : Branch.Grown .leaf (.single leaf) :=
    ⟨Branch.balanced_single leaf, by simp, Or.inl rfl⟩
  obtain ⟨vs, c₂, walked, outcome⟩ :=
    run_climb_grown uneven.focus (miss.close.symm ▸ h.balanced) grown size
  have ascends := walked.ascends (uneven.focus.length_le_walkBound size)
  refine ⟨p, c₁, vs, c₂, miss.focus.trail, run₁, ascends, ?_⟩
  rcases outcome with none | ⟨lower, q, below, v, above, rfl, at_v, slot, changes₂⟩
  · exact Or.inl none
  · have before := Focus.append_iff.1 miss.focus
    refine Or.inr ⟨lower, q, below, v, above, rfl, at_v, ?_, slot, ?_⟩
    · rw [slot?_of_storedIn before.trail, at_v.node]
    · intro k around other
      have after := Focus.append_iff.1 uneven.focus
      rw [changes₂ k (around.not_isBranch after other),
        changes₁ k (around.not_isAttached miss.focus at_v.node new)]

variable {σ : Type} [ByteStore σ] {view : StoreView σ} {n : Nat} {f : FieldStore σ}

/-- An insert of a new key into a tree that some run leads to hangs a leaf at the end of a trail
(`attach`), and then visits the nodes of that trail up to the root, one after the other: the reads
and writes behind the leaf are those of the visits (`Ascends`). None of them turns anything; or just
one rebalances its node, with one rotation or with two. Above that one every visit finds its node
right and writes nothing. Of the nodes around the subtree, above it and aside, no field is another
than before the insert, nor is the root link, but for the one link to the subtree, which leads to
its new topmost node. -/
theorem insert_rebalances_once (h : Reachable t view n d f) (few : n + 1 + 1 < Word.size64)
    (key : List String) (value : String) (arity : key.length = t.arity)
    (absent : d.contains t.orders key = false)
    (takes : view.TakesAll ((t.insert key value).writes (view.contents f.store))) :
    ∃ (p : Trail) (c₁ : Contents) (vs : List Visit) (f' : FieldStore σ),
      FieldStore.perform (t.insert key value) f = .ok () f' ∧
      p.StoredIn (view.contents f.store) t.ns none ∧
      (t.attach key value).run (view.contents f.store) = .ok p.parent c₁ ∧
      Ascends t.ns p c₁ vs (view.contents f'.store) ∧
      FieldStore.accesses (t.insert key value) f =
        (t.attach key value).accesses (view.contents f.store) ++
          vs.flatMap (Visit.accesses t.ns) ∧
      ((∀ v ∈ vs, v.Stands) ∨
        ∃ lower q below v above, p = lower ++ q ∧ RebalancesAt t.ns lower vs below v above ∧
          (view.contents f.store).slot? t.ns q = some (some v.node) ∧
          (view.contents f'.store).slot? t.ns q = some (some v.top) ∧
          ∀ k, IsAround t.ns q k → k ≠ q.slot t.ns →
            view.contents f'.store k.text.toUTF8 = view.contents f.store k.text.toUTF8) := by
  obtain ⟨b, free, high, served⟩ := h.served (by omega)
  have issued := served.issued
  obtain ⟨p, c₁, vs, c₂, trail, attached, ascends, outcome⟩ :=
    served.stored.run_insert_new value arity (by omega) absent
  have run : (t.insert key value).run (view.contents f.store) = .ok () c₂ := by
    rw [insert_eq, Script.run_bind_ok attached, ascends.run]
  have accesses : FieldStore.accesses (t.insert key value) f =
      (t.attach key value).accesses (view.contents f.store) ++
        vs.flatMap (Visit.accesses t.ns) := by
    rw [FieldStore.accesses_shows served.shows takes, insert_eq,
      Script.accesses_bind_ok attached, ascends.accesses]
  obtain ⟨f', performed, shows⟩ := served.perform run takes
  obtain rfl := shows.contents
  exact ⟨p, c₁, vs, f', performed, trail, attached, ascends, accesses, outcome⟩

/-- Three keys in ascending order: the insert of the third one brings the second node up to the
root. -/
theorem third_insert_rebalances :
    ∃ (f f' : FieldStore Memory) (p : Trail) (c₁ : Contents) (vs : List Visit),
      Reachable ⟨1, [.asc], by simp⟩ Memory.view 2 [(["1"], "a"), (["2"], "b")] f ∧
      FieldStore.perform (Tree.insert ⟨1, [.asc], by simp⟩ ["3"] "c") f = .ok () f' ∧
      Ascends 1 p c₁ vs (Memory.view.contents f'.store) ∧
      (Memory.view.contents f.store).slot? 1 [] = some (some 1) ∧
      (Memory.view.contents f'.store).slot? 1 [] = some (some 2) := by
  have start := reachable_empty ⟨1, [.asc], by simp⟩
  have run := (start.step (.insert ["1"] "a") rfl fun _ _ => trivial).step
    (.insert ["2"] "b") rfl fun _ _ => trivial
  have left : Move.onDictionary ⟨1, [.asc], by simp⟩ (Move.onDictionary ⟨1, [.asc], by simp⟩ []
      (.insert ["1"] "a")) (.insert ["2"] "b") = [(["1"], "a"), (["2"], "b")] := by
    decide +kernel
  rw [left] at run
  set f : FieldStore Memory := Move.apply ⟨1, [.asc], by simp⟩
    (Move.apply ⟨1, [.asc], by simp⟩ { store := Memory.empty } (.insert ["1"] "a"))
    (.insert ["2"] "b")
  obtain ⟨p, c₁, vs, f', performed, -, -, ascends, -, -⟩ :=
    insert_rebalances_once run (by decide) ["3"] "c" rfl (by decide +kernel) fun _ _ => trivial
  have root : (Memory.view.contents (leftBy (FieldStore.perform
      (Tree.insert ⟨1, [.asc], by simp⟩ ["3"] "c") f)).store).slot? 1 [] = some (some 2) := by
    decide +kernel
  rw [performed] at root
  exact ⟨f, f', p, c₁, vs, run, performed, ascends, by decide +kernel, root⟩

end Tree

end FlatStore
