import FlatStore.Error
import FlatStore.Key
import FlatStore.Link
import Mathlib.Data.Nat.Fib.Basic

/-! # Branches

    The shape of a stored tree as a value: which node hangs where, and the two
    numbers stored with each node. Keys and payloads are left out, because no
    change of shape touches them.

    * A `Turn` is a node on the way down with the branch left aside, and a
      list of turns, innermost first, is the way from a branch up to the root.
    * `rotate`, `lighten`, `rebalance` and `climb` say what rebalancing makes
      of a shape. They keep the nodes in their order (`ids_rebalance`).
    * `Balanced`: all stored numbers are right and no node leans by two. A
      climb balances a tree below which one branch has grown or shrunk by one
      level (`balanced_climb`).
    * A balanced branch has at least as many nodes as a Fibonacci number of
      its height (`fib_le_size`).
-/

namespace FlatStore

/-- A node as it hangs in a tree: its id, and the two numbers stored with it. -/
structure Fork where
  id : NodeId
  height : Int
  balance : Int

/-- A tree of nodes, or none. -/
inductive Branch where
  | leaf
  | node (left : Branch) (fork : Fork) (right : Branch)

namespace Branch

/-- The link to the topmost node. -/
def link : Branch → Link
  | leaf => none
  | node _ f _ => some f.id

/-- The height stored with the topmost node, -1 without nodes. -/
def height : Branch → Int
  | leaf => -1
  | node _ f _ => f.height

/-- The ids of the nodes, from left to right. -/
def ids : Branch → List NodeId
  | leaf => []
  | node l f r => l.ids ++ f.id :: r.ids

/-- The child on a side. -/
def child (side : Side) : Branch → Branch
  | leaf => leaf
  | node l _ r => match side with
    | .left => l
    | .right => r

/-- The node with `near` on a side and `far` across. -/
def join (side : Side) (near : Branch) (f : Fork) (far : Branch) : Branch :=
  match side with
  | .left => node near f far
  | .right => node far f near

@[simp]
theorem link_leaf : leaf.link = none := rfl

@[simp]
theorem link_node (l : Branch) (f : Fork) (r : Branch) : (node l f r).link = some f.id := rfl

@[simp]
theorem height_leaf : leaf.height = -1 := rfl

@[simp]
theorem height_node (l : Branch) (f : Fork) (r : Branch) : (node l f r).height = f.height := rfl

@[simp]
theorem ids_leaf : leaf.ids = [] := rfl

@[simp]
theorem ids_node (l : Branch) (f : Fork) (r : Branch) :
    (node l f r).ids = l.ids ++ f.id :: r.ids := rfl

@[simp]
theorem link_join (side : Side) (near : Branch) (f : Fork) (far : Branch) :
    (join side near f far).link = some f.id := by
  cases side <;> rfl

@[simp]
theorem height_join (side : Side) (near : Branch) (f : Fork) (far : Branch) :
    (join side near f far).height = f.height := by
  cases side <;> rfl

theorem mem_ids_join {side : Side} {near : Branch} {f : Fork} {far : Branch} {id : NodeId} :
    id ∈ (join side near f far).ids ↔ id = f.id ∨ id ∈ near.ids ∨ id ∈ far.ids := by
  cases side <;> simp [join] <;> tauto

theorem nodup_ids_join (side : Side) {near : Branch} {f : Fork} {far : Branch} :
    (join side near f far).ids.Nodup ↔
      near.ids.Nodup ∧ far.ids.Nodup ∧ f.id ∉ near.ids ∧ f.id ∉ far.ids ∧
        List.Disjoint near.ids far.ids := by
  cases side <;> simp [join, List.nodup_append', List.nodup_cons, List.disjoint_comm] <;> tauto

theorem link_mem_ids {b : Branch} {id : NodeId} (h : b.link = some id) : id ∈ b.ids := by
  cases b with
  | leaf => cases h
  | node l f r => cases h; simp

end Branch

/-! ### Numbers recomputed -/

/-- The fork with the numbers that belong above two branches. -/
def Fork.over (f : Fork) (l r : Branch) : Fork :=
  { f with height := 1 + max l.height r.height, balance := r.height - l.height }

@[simp]
theorem Fork.id_over (f : Fork) (l r : Branch) : (f.over l r).id = f.id := rfl

/-- The fork with the numbers that belong above `near` on a side and `far` across. -/
def Fork.overOn (f : Fork) (side : Side) (near far : Branch) : Fork :=
  match side with
  | .left => f.over near far
  | .right => f.over far near

@[simp]
theorem Fork.id_overOn (f : Fork) (side : Side) (near far : Branch) :
    (f.overOn side near far).id = f.id := by
  cases side <;> rfl

namespace Branch

/-- The node above two branches, with its numbers recomputed. -/
def settle (l : Branch) (f : Fork) (r : Branch) : Branch := node l (f.over l r) r

/-- The node with `near` on a side and `far` across, with its numbers recomputed. -/
def settleOn (side : Side) (near : Branch) (f : Fork) (far : Branch) : Branch :=
  match side with
  | .left => settle near f far
  | .right => settle far f near

@[simp]
theorem link_settle (l : Branch) (f : Fork) (r : Branch) : (settle l f r).link = some f.id := rfl

@[simp]
theorem ids_settle (l : Branch) (f : Fork) (r : Branch) :
    (settle l f r).ids = l.ids ++ f.id :: r.ids := rfl

@[simp]
theorem height_settle (l : Branch) (f : Fork) (r : Branch) :
    (settle l f r).height = 1 + max l.height r.height := rfl

@[simp]
theorem link_settleOn (side : Side) (near : Branch) (f : Fork) (far : Branch) :
    (settleOn side near f far).link = some f.id := by
  cases side <;> rfl

@[simp]
theorem height_settleOn (side : Side) (near : Branch) (f : Fork) (far : Branch) :
    (settleOn side near f far).height = 1 + max near.height far.height := by
  cases side
  · rfl
  · exact congrArg (1 + ·) (max_comm _ _)

/-! ### Rebalancing a shape -/

/-- The child on the side `up` takes the place of the topmost node, which becomes its child across
and takes over the branch there. -/
def rotate : Side → Branch → Branch
  | .left, node (node a y b) x c => settle a y (settle b x c)
  | .right, node a x (node b y c) => settle (settle a x b) y c
  | _, b => b

/-- A heavy child before its parent is rotated: turned itself if its inner child is the higher. -/
def readied (heavy : Side) (b : Branch) : Branch :=
  if (b.child heavy).height < (b.child heavy.other).height then b.rotate heavy.other else b

/-- Bring down a node that leans by two to the side `heavy`. -/
def lighten (heavy : Side) : Branch → Branch
  | leaf => leaf
  | node l f r =>
    match heavy with
    | .left => rotate .left (node (l.readied .left) f r)
    | .right => rotate .right (node l f (r.readied .right))

/-- Recompute the topmost node, and rotate if it leans by two. -/
def rebalance : Branch → Branch
  | leaf => leaf
  | node l f r =>
    if r.height - l.height = -2 then lighten .left (settle l f r)
    else if r.height - l.height = 2 then lighten .right (settle l f r)
    else settle l f r

@[simp]
theorem ids_settleOn (side : Side) (near : Branch) (f : Fork) (far : Branch) :
    (settleOn side near f far).ids = (join side near f far).ids := by
  cases side <;> rfl

theorem settleOn_other (side : Side) (near : Branch) (f : Fork) (far : Branch) :
    settleOn side.other near f far = settleOn side far f near := by
  cases side <;> rfl

theorem settleOn_eq_join (side : Side) (near : Branch) (f : Fork) (far : Branch) :
    settleOn side near f far = join side near (f.overOn side near far) far := by
  cases side <;> rfl

/-- Setting a node above two branches gives a node with the same id above them. -/
theorem exists_settleOn (side : Side) (near : Branch) (f : Fork) (far : Branch) :
    ∃ g : Fork, g.id = f.id ∧ settleOn side near f far = join side near g far :=
  ⟨f.overOn side near far, f.id_overOn side near far, settleOn_eq_join side near f far⟩

theorem join_other (side : Side) (near : Branch) (f : Fork) (far : Branch) :
    join side.other near f far = join side far f near := by
  cases side <;> rfl

/-- A rotation, told by the side of the child that comes up. -/
theorem rotate_join (up : Side) (outer inner rest : Branch) (y x : Fork) :
    rotate up (join up (join up outer y inner) x rest) =
      settleOn up outer y (settleOn up inner x rest) := by
  cases up <;> rfl

theorem lighten_join (heavy : Side) (b : Branch) (f : Fork) (rest : Branch) :
    lighten heavy (join heavy b f rest) = rotate heavy (join heavy (b.readied heavy) f rest) := by
  cases heavy <;> rfl

/-- A heavy child whose outer child is as high as the inner one stays as it is. -/
theorem readied_join_of_le {heavy : Side} {outer inner : Branch} (y : Fork)
    (h : inner.height ≤ outer.height) :
    (join heavy outer y inner).readied heavy = join heavy outer y inner := by
  have : ¬ outer.height < inner.height := by omega
  cases heavy <;> simp [readied, join, child, Side.other, this]

/-- A heavy child whose inner child is the higher is turned, and that child comes up. -/
theorem readied_join_of_lt {heavy : Side} {outer near far : Branch} (y z : Fork)
    (h : outer.height < (join heavy near z far).height) :
    (join heavy outer y (join heavy near z far)).readied heavy =
      settleOn heavy (settleOn heavy outer y near) z far := by
  cases heavy <;> simp_all [readied, join, child, Side.other, rotate, settleOn]

/-- One rotation brings a node down whose heavy child does not lean inwards. -/
theorem lighten_of_le {heavy : Side} {outer inner : Branch} (y x : Fork) (rest : Branch)
    (h : inner.height ≤ outer.height) :
    lighten heavy (join heavy (join heavy outer y inner) x rest) =
      settleOn heavy outer y (settleOn heavy inner x rest) := by
  rw [lighten_join, readied_join_of_le y h, rotate_join]

/-- Where the heavy child leans inwards, its inner child comes up twice. -/
theorem lighten_of_lt {heavy : Side} {outer near far : Branch} (y z x : Fork) (rest : Branch)
    (h : outer.height < (join heavy near z far).height) :
    lighten heavy (join heavy (join heavy outer y (join heavy near z far)) x rest) =
      settleOn heavy (settleOn heavy outer y near) z (settleOn heavy far x rest) := by
  rw [lighten_join, readied_join_of_lt y z h]
  cases heavy <;> rfl

end Branch

/-- A node on the way down, the side that was taken and the branch left aside. -/
structure Turn where
  side : Side
  fork : Fork
  sibling : Branch

namespace Turn

/-- The turn taken back: the node with the branch that was followed. -/
def close (t : Turn) (b : Branch) : Branch := .join t.side b t.fork t.sibling

/-- The ids left of the branch that was followed. -/
def before (t : Turn) : List NodeId :=
  match t.side with
  | .left => []
  | .right => t.sibling.ids ++ [t.fork.id]

/-- The ids right of the branch that was followed. -/
def after (t : Turn) : List NodeId :=
  match t.side with
  | .left => t.fork.id :: t.sibling.ids
  | .right => []

theorem ids_close (t : Turn) (b : Branch) : (t.close b).ids = t.before ++ b.ids ++ t.after := by
  cases h : t.side <;> simp [close, before, after, Branch.join, h]

end Turn

/-- The way from a branch up to the root, innermost turn first. -/
abbrev Trail := List Turn

namespace Trail

/-- The whole tree. -/
def close : Trail → Branch → Branch
  | [], b => b
  | t :: p, b => close p (t.close b)

/-- The link to the node above. -/
def parent : Trail → Link
  | [] => none
  | t :: _ => some t.fork.id

/-- The ids left of the branch. -/
def before : Trail → List NodeId
  | [] => []
  | t :: p => before p ++ t.before

/-- The ids right of the branch. -/
def after : Trail → List NodeId
  | [] => []
  | t :: p => t.after ++ after p

/-- Rebalance from the branch up to the root. -/
def climb : Trail → Branch → Branch
  | [], b => b
  | t :: p, b => climb p (t.close b).rebalance

theorem ids_close (p : Trail) (b : Branch) : (p.close b).ids = p.before ++ b.ids ++ p.after := by
  induction p generalizing b with
  | nil => simp [close, before, after]
  | cons t p ih => simp [close, before, after, ih, Turn.ids_close]

theorem close_append (p q : Trail) (b : Branch) :
    close (p ++ q) b = close q (close p b) := by
  induction p generalizing b with
  | nil => rfl
  | cons t p ih => exact ih (t.close b)

theorem before_append (p q : Trail) : before (p ++ q) = before q ++ before p := by
  induction p with
  | nil => simp [before]
  | cons t p ih => simp [before, ih]

theorem after_append (p q : Trail) : after (p ++ q) = after p ++ after q := by
  induction p with
  | nil => simp [after]
  | cons t p ih => simp [after, ih]

end Trail

namespace Branch

/-! ### The nodes keep their order -/

@[simp]
theorem ids_rotate (up : Side) (b : Branch) : (b.rotate up).ids = b.ids := by
  unfold rotate
  split <;> simp

@[simp]
theorem ids_readied (heavy : Side) (b : Branch) : (b.readied heavy).ids = b.ids := by
  unfold readied
  split <;> simp

@[simp]
theorem ids_lighten (heavy : Side) (b : Branch) : (b.lighten heavy).ids = b.ids := by
  cases b with
  | leaf => rfl
  | node l f r => cases heavy <;> simp [lighten]

@[simp]
theorem ids_rebalance (b : Branch) : b.rebalance.ids = b.ids := by
  cases b with
  | leaf => rfl
  | node l f r =>
    rw [rebalance]
    split
    · simp
    · split <;> simp

end Branch

theorem Trail.ids_climb (p : Trail) (b : Branch) : (p.climb b).ids = (p.close b).ids := by
  induction p generalizing b with
  | nil => rfl
  | cons t p ih => rw [climb, ih, ids_close, Branch.ids_rebalance, close, ids_close]

namespace Branch

/-! ### Balance -/

/-- All stored numbers are right, and no node leans by two. -/
def Balanced : Branch → Prop
  | leaf => True
  | node l f r => l.Balanced ∧ r.Balanced ∧ f = f.over l r ∧ -1 ≤ f.balance ∧ f.balance ≤ 1

theorem neg_one_le_height {b : Branch} (h : b.Balanced) : -1 ≤ b.height := by
  cases b with
  | leaf => simp
  | node l f r =>
    obtain ⟨hl, -, hf, -⟩ := h
    have := neg_one_le_height hl
    have : f.height = 1 + max l.height r.height := congrArg Fork.height hf
    simp only [height_node]
    omega

theorem balanced_settle {l r : Branch} {f : Fork} :
    (settle l f r).Balanced ↔
      l.Balanced ∧ r.Balanced ∧ -1 ≤ r.height - l.height ∧ r.height - l.height ≤ 1 := by
  simp [settle, Balanced, Fork.over]

theorem balanced_settleOn {side : Side} {near far : Branch} {f : Fork} :
    (settleOn side near f far).Balanced ↔
      near.Balanced ∧ far.Balanced ∧ near.height ≤ far.height + 1 ∧
        far.height ≤ near.height + 1 := by
  cases side with
  | left =>
    rw [settleOn, balanced_settle]
    constructor <;> rintro ⟨hn, hf, low, high⟩ <;> exact ⟨hn, hf, by omega, by omega⟩
  | right =>
    rw [settleOn, balanced_settle]
    constructor <;> rintro ⟨hn, hf, low, high⟩ <;> exact ⟨hf, hn, by omega, by omega⟩

/-- The parts of a balanced node. -/
theorem Balanced.of_join {side : Side} {near far : Branch} {f : Fork}
    (h : (join side near f far).Balanced) :
    near.Balanced ∧ far.Balanced ∧ f.height = 1 + max near.height far.height ∧
      near.height ≤ far.height + 1 ∧ far.height ≤ near.height + 1 := by
  cases side with
  | left =>
    obtain ⟨hn, hf, numbers, low, high⟩ := h
    have height : f.height = 1 + max near.height far.height := congrArg Fork.height numbers
    have balance : f.balance = far.height - near.height := congrArg Fork.balance numbers
    exact ⟨hn, hf, height, by omega, by omega⟩
  | right =>
    obtain ⟨hf, hn, numbers, low, high⟩ := h
    have height : f.height = 1 + max far.height near.height := congrArg Fork.height numbers
    have balance : f.balance = near.height - far.height := congrArg Fork.balance numbers
    exact ⟨hn, hf, by omega, by omega, by omega⟩

/-- A branch that is not missing has a topmost node. -/
theorem exists_join_of_ne_leaf (side : Side) {b : Branch} (h : b ≠ leaf) :
    ∃ near f far, b = join side near f far := by
  cases b with
  | leaf => exact absurd rfl h
  | node l f r =>
    cases side with
    | left => exact ⟨l, f, r, rfl⟩
    | right => exact ⟨r, f, l, rfl⟩

/-- A branch with some height has a topmost node. -/
theorem exists_join_of_height (side : Side) {b : Branch} (h : -1 < b.height) :
    ∃ near f far, b = join side near f far := by
  refine exists_join_of_ne_leaf side ?_
  rintro rfl
  simp at h

/-- A node that leans by two is brought down. -/
theorem balanced_lighten (heavy : Side) {b rest : Branch} (f : Fork) (hb : b.Balanced)
    (hrest : rest.Balanced) (lean : b.height = rest.height + 2) :
    (lighten heavy (join heavy b f rest)).Balanced ∧
      b.height ≤ (lighten heavy (join heavy b f rest)).height ∧
      (lighten heavy (join heavy b f rest)).height ≤ b.height + 1 := by
  have := neg_one_le_height hrest
  obtain ⟨outer, y, inner, rfl⟩ := exists_join_of_height heavy (show -1 < b.height by omega)
  obtain ⟨houter, hinner, height, low, high⟩ := hb.of_join
  rw [height_join] at lean ⊢
  by_cases turned : outer.height < inner.height
  · -- The inner grandchild is the higher one and comes up twice.
    have := neg_one_le_height houter
    obtain ⟨near, z, far, rfl⟩ := exists_join_of_height heavy (show -1 < inner.height by omega)
    obtain ⟨hnear, hfar, height', low', high'⟩ := hinner.of_join
    rw [lighten_of_lt y z f rest turned, balanced_settleOn, balanced_settleOn, balanced_settleOn]
    rw [height_join] at turned low high height
    simp only [height_settleOn]
    refine ⟨⟨⟨houter, hnear, ?_, ?_⟩, ⟨hfar, hrest, ?_, ?_⟩, ?_, ?_⟩, ?_, ?_⟩ <;> omega
  · -- The outer grandchild is as high, so one rotation is enough.
    rw [lighten_of_le y f rest (by omega), balanced_settleOn, balanced_settleOn]
    simp only [height_settleOn]
    refine ⟨⟨houter, ⟨hinner, hrest, ?_, ?_⟩, ?_, ?_⟩, ?_, ?_⟩ <;> omega

theorem rebalance_join (side : Side) (near : Branch) (f : Fork) (far : Branch) :
    (join side near f far).rebalance =
      if near.height = far.height + 2 then lighten side (settleOn side near f far)
      else if far.height = near.height + 2 then lighten side.other (settleOn side near f far)
      else settleOn side near f far := by
  -- The balance factor is the difference of the heights as seen from the left.
  cases side with
  | left =>
    have left : (far.height - near.height = -2) = (near.height = far.height + 2) := by
      apply propext; omega
    have right : (far.height - near.height = 2) = (far.height = near.height + 2) := by
      apply propext; omega
    simp only [join, rebalance, left, right]
    rfl
  | right =>
    have left : (near.height - far.height = -2) = (far.height = near.height + 2) := by
      apply propext; omega
    have right : (near.height - far.height = 2) = (near.height = far.height + 2) := by
      apply propext; omega
    simp only [join, rebalance, left, right]
    by_cases hn : near.height = far.height + 2
    · rw [if_neg (by omega), if_pos hn, if_pos hn]
      rfl
    · simp only [hn, if_false]
      rfl

/-- Two balanced branches whose heights differ by at most two are balanced above as well, at the
height that belongs above them or one below it. -/
theorem balanced_rebalance (side : Side) {near far : Branch} (f : Fork) (hn : near.Balanced)
    (hf : far.Balanced) (low : near.height ≤ far.height + 2) (high : far.height ≤ near.height + 2) :
    (join side near f far).rebalance.Balanced ∧
      max near.height far.height ≤ (join side near f far).rebalance.height ∧
      (join side near f far).rebalance.height ≤ 1 + max near.height far.height ∧
      (near.height ≤ far.height + 1 → far.height ≤ near.height + 1 →
        (join side near f far).rebalance.height = 1 + max near.height far.height) := by
  rw [rebalance_join]
  by_cases near_heavy : near.height = far.height + 2
  · obtain ⟨g, -, hg⟩ := exists_settleOn side near f far
    obtain ⟨balanced, above, below⟩ := balanced_lighten side g hn hf near_heavy
    rw [if_pos near_heavy, hg]
    exact ⟨balanced, by omega, by omega, by omega⟩
  · rw [if_neg near_heavy]
    by_cases far_heavy : far.height = near.height + 2
    · -- The same, seen from the other side.
      obtain ⟨g, -, hg⟩ := exists_settleOn side.other far f near
      rw [settleOn_other] at hg
      obtain ⟨balanced, above, below⟩ :=
        balanced_lighten side.other g hf hn far_heavy
      rw [if_pos far_heavy, hg]
      exact ⟨balanced, by omega, by omega, by omega⟩
    · -- Nothing is rotated, and the node stands one level above its higher child.
      rw [if_neg far_heavy, balanced_settleOn, height_settleOn]
      exact ⟨⟨hn, hf, by omega, by omega⟩, by omega, by omega, fun _ _ => rfl⟩

end Branch

namespace Trail

/-- The turns are balanced around a branch of height `h`. -/
def Steady (h : Int) : Trail → Prop
  | [] => True
  | t :: p =>
    t.sibling.Balanced ∧ h - 1 ≤ t.sibling.height ∧ t.sibling.height ≤ h + 1 ∧
      Steady (1 + max h t.sibling.height) p

/-- Around each branch of a balanced tree the turns are balanced. -/
theorem steady_of_balanced {p : Trail} {b : Branch} (h : (p.close b).Balanced) :
    b.Balanced ∧ p.Steady b.height := by
  induction p generalizing b with
  | nil => exact ⟨h, trivial⟩
  | cons t p ih =>
    -- The branch with its turn closed is a branch of the same tree, one turn further up.
    obtain ⟨top, rest⟩ := ih h
    obtain ⟨hb, hs, height, low, high⟩ := Branch.Balanced.of_join top
    rw [Turn.close, Branch.height_join, height] at rest
    exact ⟨hb, hs, by omega, by omega, rest⟩

/-- One step of a climb: where a branch of height `h` was replaced by one that is at most one level
higher or lower, rebalancing above it gives again a branch that is at most one level off. -/
theorem balanced_rebalance_close {t : Turn} {b : Branch} {h : Int} (hb : b.Balanced)
    (hs : t.sibling.Balanced) (low : h - 1 ≤ t.sibling.height) (high : t.sibling.height ≤ h + 1)
    (below : h - 1 ≤ b.height) (above : b.height ≤ h + 1) :
    (t.close b).rebalance.Balanced ∧
      1 + max h t.sibling.height - 1 ≤ (t.close b).rebalance.height ∧
      (t.close b).rebalance.height ≤ 1 + max h t.sibling.height + 1 := by
  obtain ⟨balanced, lower, upper, level⟩ :=
    Branch.balanced_rebalance t.side t.fork hb hs (by omega) (by omega)
  rw [Turn.close]
  exact ⟨balanced, by omega, by omega⟩

/-- A climb balances the tree when the branch at its start has grown or shrunk by one level. -/
theorem balanced_climb {p : Trail} {b : Branch} {h : Int} (hb : b.Balanced) (hp : p.Steady h)
    (below : h - 1 ≤ b.height) (above : b.height ≤ h + 1) : (p.climb b).Balanced := by
  -- The branch on the way is balanced and at most one level off, at every turn.
  induction p generalizing b h with
  | nil => exact hb
  | cons t p ih =>
    obtain ⟨hs, low, high, rest⟩ := hp
    obtain ⟨balanced, lower, upper⟩ := balanced_rebalance_close hb hs low high below above
    exact ih balanced rest lower upper

end Trail

namespace Branch

/-! ### Height and size -/

/-- A balanced branch of height `n` has at least `fib (n + 3) - 1` nodes. -/
theorem fib_le_size {b : Branch} (h : b.Balanced) :
    Nat.fib (b.height + 3).toNat ≤ b.ids.length + 1 := by
  induction b with
  | leaf => simp
  | node l f r ihl ihr =>
    have top : (join .left l f r).Balanced := h
    obtain ⟨hl, hr, height, low, high⟩ := top.of_join
    have := neg_one_le_height hl
    have := neg_one_le_height hr
    have sizes : (node l f r).ids.length + 1 = (l.ids.length + 1) + (r.ids.length + 1) := by
      simp only [ids_node, List.length_append, List.length_cons]
      omega
    have left := ihl hl
    have right := ihr hr
    rw [sizes, height_node, height]
    -- The higher child is one level lower than the node, the other one at most two.
    obtain ⟨n, hn⟩ := Int.eq_ofNat_of_zero_le (show 0 ≤ max l.height r.height + 2 by omega)
    have index : (1 + max l.height r.height + 3).toNat = n + 2 := by omega
    rw [index, Nat.fib_add_two]
    rcases le_total l.height r.height with le | le
    · have hr' : (r.height + 3).toNat = n + 1 := by omega
      have hl' : n ≤ (l.height + 3).toNat := by omega
      have := Nat.fib_mono hl'
      rw [hr'] at right
      omega
    · have hl' : (l.height + 3).toNat = n + 1 := by omega
      have hr' : n ≤ (r.height + 3).toNat := by omega
      have := Nat.fib_mono hr'
      rw [hl'] at left
      omega

/-- A balanced branch with fewer than 2⁶⁴ nodes is at most 90 levels high. -/
theorem height_le {b : Branch} (h : b.Balanced) (size : b.ids.length + 1 ≤ Word.size64) :
    b.height ≤ 90 := by
  by_contra high
  -- One more level takes `fib 94 - 1` nodes.
  have bound : Nat.fib 94 ≤ Nat.fib (b.height + 3).toNat := Nat.fib_mono (by omega)
  have := fib_le_size h
  have large : Word.size64 < Nat.fib 94 := by decide +kernel
  omega

end Branch

end FlatStore
