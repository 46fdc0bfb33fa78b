import FlatStore.Proofs.KeyText
import FlatStore.Tree

/-! # Rules for trees

    The operations of a tree are put together from a few steps: reading one
    field, writing one field, and ending. So a property of scripts that holds
    of these steps, and goes over to one script behind another, holds of every
    operation, on whatever contents it is run.

    * `ReadRule`: such a property of the steps that read a tree. It holds of
      all queries.
    * `Rule`: one that holds of the writes and of the pool besides. It holds of
      inserting and deleting.
-/

namespace FlatStore

/-- A property of scripts that goes over to sequences of them. -/
structure ScriptRule where
  Holds : {α : Type} → Script α → Prop
  done {α : Type} (a : α) : Holds (.done a)
  fail {α : Type} (failure : Failure) : Holds (.fail failure : Script α)
  bind {α β : Type} {s : Script α} {f : α → Script β} (first : Holds s)
    (rest : ∀ a, Holds (f a)) : Holds (s >>= f)

namespace ScriptRule

variable (R : ScriptRule) {α β : Type}

theorem successor (n : Nat) : R.Holds (Script.successor n) := by
  unfold Script.successor
  split
  · exact R.done _
  · exact R.fail _

theorem mapM {f : α → Script β} (h : ∀ a, R.Holds (f a)) (xs : List α) : R.Holds (xs.mapM f) := by
  induction xs with
  | nil => exact R.done _
  | cons x xs ih =>
    rw [List.mapM_cons]
    exact R.bind (h x) fun _ => R.bind ih fun _ => R.done _

theorem forM {f : α → Script Unit} (h : ∀ a, R.Holds (f a)) (xs : List α) :
    R.Holds (xs.forM f) := by
  induction xs with
  | nil => exact R.done _
  | cons x xs ih => exact R.bind (h x) fun _ => ih

end ScriptRule

namespace Tree

/-! ### Asking a tree -/

/-- A rule for the reads of the tree in a namespace. -/
structure ReadRule (ns : FileId) extends ScriptRule where
  height (id : NodeId) : Holds (Node.height ns (some id))
  balance (id : NodeId) : Holds (Node.balance ns id)
  data (id : NodeId) : Holds (Node.data ns id)
  child (side : Side) (id : NodeId) : Holds (Node.child ns side id)
  parent (id : NodeId) : Holds (Node.parent ns id)
  component (id : NodeId) (i : Nat) : Holds (Node.component ns id i)
  root : Holds (Tree.root ns)
  size : Holds (Tree.size ns)

namespace ReadRule

variable {ns : FileId} (R : ReadRule ns)

theorem heightBelow (link : Link) : R.Holds (Node.height ns link) := by
  cases link with
  | none => exact R.done _
  | some id => exact R.height id

theorem key (id : NodeId) (arity : Nat) : R.Holds (Node.key ns id arity) :=
  R.mapM (fun i => R.component id i) _

theorem compareFrom (id : NodeId) (i : Nat) (orders : List KeyOrder) (texts : List String) :
    R.Holds (Tree.compareFrom ns id i orders texts) := by
  induction orders generalizing i texts with
  | nil => exact R.done _
  | cons order orders ih =>
    cases texts with
    | nil => exact R.done _
    | cons text texts =>
      refine R.bind (R.component id i) fun stored => ?_
      split
      · exact ih (i + 1) texts
      · exact R.done _

theorem collect {α : Type} {near : Side} {visit : NodeId → Script α}
    (hvisit : ∀ id, R.Holds (visit id)) (bound : Nat) (link : Link) (wanted : Option Nat)
    (found : List α) {next : Option Nat → List α → Script (List α)}
    (hnext : ∀ wanted found, R.Holds (next wanted found)) :
    R.Holds (Tree.collect ns near visit bound link wanted found next) := by
  induction bound generalizing link wanted found next with
  | zero =>
    cases link with
    | none => exact hnext wanted found
    | some id => exact R.fail _
  | succ bound ih =>
    cases link with
    | none => exact hnext wanted found
    | some id =>
      refine R.bind (R.child near id) fun child => ih child wanted found ?_
      refine fun wanted found => R.bind (hvisit id) fun a => ?_
      split
      · exact R.done _
      · exact R.bind (R.child near.other id) fun child => ih child _ _ hnext

variable {t : Tree} (R : ReadRule t.ns) (key : List String)

theorem checkKey : R.Holds (t.checkKey key) := by
  unfold Tree.checkKey
  split
  · exact R.done _
  · exact R.fail _

theorem descend (bound : Nat) (id : NodeId) : R.Holds (t.descend key bound id) := by
  induction bound generalizing id with
  | zero => exact R.fail _
  | succ bound ih =>
    refine R.bind (R.compareFrom id 0 t.orders key) fun order => ?_
    split
    · exact R.done _
    · next side _ =>
      refine R.bind (R.child side id) fun child => ?_
      cases child with
      | none => exact R.done _
      | some child => exact ih child

theorem place : R.Holds (t.place key) := by
  refine R.bind R.root fun link => ?_
  cases link with
  | none => exact R.done _
  | some id => exact R.descend key walkBound id

theorem find : R.Holds (t.find key) := by
  refine R.bind (R.place key) fun place => ?_
  cases place <;> exact R.done _

theorem get : R.Holds (t.get key) := by
  refine R.bind (R.checkKey key) fun _ => R.bind (R.find key) fun link => ?_
  cases link with
  | none => exact R.done _
  | some id => exact R.bind (R.data id) fun _ => R.done _

theorem contains : R.Holds (t.contains key) :=
  R.bind (R.checkKey key) fun _ => R.bind (R.find key) fun _ => R.done _

theorem isEmpty : R.Holds t.isEmpty := R.bind R.root fun _ => R.done _

theorem rootHeight : R.Holds t.height := R.bind R.root fun link => R.heightBelow link

theorem traverse {α : Type} (near : Side) (wanted : Option Nat) {visit : NodeId → Script α}
    (hvisit : ∀ id, R.Holds (visit id)) : R.Holds (t.traverse near wanted visit) :=
  R.bind R.root fun link => R.collect hvisit walkBound link wanted [] fun _ _ => R.done _

theorem keys : R.Holds t.keys :=
  R.bind (R.traverse .left none fun id => R.key id t.arity) fun _ => R.done _

theorem entries : R.Holds t.entries :=
  R.traverse .left none fun id =>
    R.bind (R.key id t.arity) fun _ => R.bind (R.data id) fun _ => R.done _

theorem top (n : Nat) : R.Holds (t.top n) := by
  unfold Tree.top
  split
  · exact R.done _
  · exact R.traverse .right (some n) R.data

end ReadRule

end Tree

/-! ### Pools -/

namespace IdPool

/-- The id in a place of the free stack, which has to be there. -/
def topId (ns : FileId) (slot : Nat) : Script NodeId := do
  let key := (Key.freeSlot ns slot).text
  match ← Script.getParsed Integer.unsigned64 key with
  | none => Script.throw (.corruptValue key .missingFreeSlot)
  | some id => return id

/-- Issuing an id, with the read of the free stack as a step of its own. -/
theorem allocate_eq (ns : FileId) : allocate ns = (do
    match ← freeCount ns with
    | slot + 1 =>
      let id ← topId ns slot
      Script.put (Key.freeCount ns).text (toString slot)
      return id
    | 0 =>
      let next ← Script.successor (← highWater ns)
      Script.put (Key.highWater ns).text (toString next)
      return next) := by
  rw [allocate]
  refine bind_congr fun count => ?_
  cases count with
  | zero => rfl
  | succ slot =>
    simp only [topId, bind_assoc]
    refine bind_congr fun found => ?_
    cases found <;> rfl

end IdPool

namespace Tree

/-! ### Changing a tree -/

/-- A rule for the reads of a tree and its pool, and for the writes to its namespace. -/
structure Rule (ns : FileId) extends ReadRule ns where
  highWater : Holds (IdPool.highWater ns)
  freeCount : Holds (IdPool.freeCount ns)
  topId (slot : Nat) : Holds (IdPool.topId ns slot)
  /-- Every field of the namespace is written but the recorded orders. -/
  put (k : Key) (own : k.namespace? = some ns) (other : k ≠ .orders ns) (value : String) :
    Holds (Script.put k.text value)

namespace Rule

variable {ns : FileId} (R : Rule ns)

theorem allocate : R.Holds (IdPool.allocate ns) := by
  rw [IdPool.allocate_eq]
  refine R.bind R.freeCount fun count => ?_
  cases count with
  | zero =>
    exact R.bind R.highWater fun high => R.bind (R.successor high) fun next =>
      R.bind (R.put (.highWater ns) rfl nofun _) fun _ => R.done _
  | succ slot =>
    exact R.bind (R.topId slot) fun id =>
      R.bind (R.put (.freeCount ns) rfl nofun _) fun _ => R.done _

theorem free (id : NodeId) : R.Holds (IdPool.free ns id) :=
  R.bind R.freeCount fun count => R.bind (R.put (.freeSlot ns count) rfl nofun _) fun _ =>
    R.bind (R.successor count) fun _ => R.put (.freeCount ns) rfl nofun _

/-! #### Nodes -/

theorem write (id : NodeId) (field : NodeField) (value : String) :
    R.Holds (Node.write ns id field value) :=
  R.put (.node ns id field) rfl nofun value

theorem setChild (side : Side) (id : NodeId) (link : Link) :
    R.Holds (Node.setChild ns side id link) :=
  R.write id side.field link.text

theorem setParent (id : NodeId) (link : Link) : R.Holds (Node.setParent ns id link) :=
  R.write id .parent link.text

theorem setData (id : NodeId) (value : String) : R.Holds (Node.setData ns id value) :=
  R.write id .data value

theorem writeComponents (id : NodeId) (i : Nat) (key : List String) :
    R.Holds (Node.writeComponents ns id i key) := by
  induction key generalizing i with
  | nil => exact R.done _
  | cons text rest ih => exact R.bind (R.write id (.component i) text) fun _ => ih (i + 1)

theorem create (id : NodeId) (key : List String) (value : String) (parent : Link) :
    R.Holds (Node.create ns id key value parent) :=
  R.bind (R.write id .height _) fun _ => R.bind (R.write id .balance _) fun _ =>
    R.bind (R.setData id value) fun _ => R.bind (R.setChild .left id none) fun _ =>
      R.bind (R.setChild .right id none) fun _ => R.bind (R.setParent id parent) fun _ =>
        R.writeComponents id 0 key

theorem copyEntry (source target : NodeId) (arity : Nat) :
    R.Holds (Node.copyEntry ns source target arity) := by
  refine R.bind (R.forM (fun i => ?_) _) fun _ => R.bind (R.data source) fun value =>
    R.setData target value
  exact R.bind (R.component source i) fun text => R.write target _ text

/-! #### Rebalancing -/

theorem setRoot (link : Link) : R.Holds (Tree.setRoot ns link) :=
  R.put (.root ns) rfl nofun link.text

theorem setSize (size : Nat) : R.Holds (Tree.setSize ns size) := R.put (.size ns) rfl nofun _

theorem fitting (n : Int) : R.Holds (Tree.fitting n) := by
  unfold Tree.fitting
  split
  · exact R.done _
  · exact R.fail _

theorem requiredChild (side : Side) (id : NodeId) : R.Holds (Tree.requiredChild ns side id) := by
  refine R.bind (R.child side id) fun child => ?_
  cases child with
  | none => exact R.fail _
  | some child => exact R.done _

theorem update (id : NodeId) : R.Holds (Tree.update ns id) := by
  refine R.bind (R.child .left id) fun left => R.bind (R.heightBelow left) fun leftHeight =>
    R.bind (R.child .right id) fun right => R.bind (R.heightBelow right) fun rightHeight =>
    R.bind (R.fitting _) fun height => R.bind (R.fitting _) fun balance =>
    R.bind (R.height id) fun stored => ?_
  -- What is left is the same whether the height was written or not.
  have rest : R.Holds (do
      if (← Node.balance ns id) ≠ balance then
        Node.write ns id .balance (toString balance)
      return balance : Script Int) := by
    refine R.bind (R.balance id) fun stored => ?_
    split
    · exact R.bind (R.write id .balance _) fun _ => R.done _
    · exact R.done _
  split
  · exact R.bind (R.write id .height _) fun _ => rest
  · exact rest

theorem replaceChild (parent : Link) (old : NodeId) (new : Link) :
    R.Holds (Tree.replaceChild ns parent old new) := by
  cases parent with
  | none => exact R.setRoot new
  | some parent =>
    refine R.bind (R.child .left parent) fun left => ?_
    split
    · exact R.setChild .left parent new
    · exact R.setChild .right parent new

theorem rotate (up : Side) (id : NodeId) : R.Holds (Tree.rotate ns up id) := by
  refine R.bind (R.requiredChild up id) fun pivot => R.bind (R.child up.other pivot) fun inner =>
    R.bind (R.parent id) fun parent => R.bind (R.setChild up id inner) fun _ => ?_
  have rest : R.Holds (do
      Node.setChild ns up.other pivot (some id)
      Node.setParent ns id (some pivot)
      Node.setParent ns pivot parent
      Tree.replaceChild ns parent id (some pivot)
      let _ ← Tree.update ns id
      let _ ← Tree.update ns pivot
      return pivot : Script NodeId) :=
    R.bind (R.setChild up.other pivot _) fun _ => R.bind (R.setParent id _) fun _ =>
      R.bind (R.setParent pivot _) fun _ => R.bind (R.replaceChild parent id _) fun _ =>
      R.bind (R.update id) fun _ => R.bind (R.update pivot) fun _ => R.done _
  cases inner with
  | none => exact rest
  | some inner => exact R.bind (R.setParent inner _) fun _ => rest

theorem lighten (heavy : Side) (id : NodeId) : R.Holds (Tree.lighten ns heavy id) := by
  refine R.bind (R.requiredChild heavy id) fun child => R.bind (R.child heavy child) fun outer =>
    R.bind (R.heightBelow outer) fun outerHeight => R.bind (R.child heavy.other child) fun inner =>
    R.bind (R.heightBelow inner) fun innerHeight => ?_
  split
  · exact R.bind (R.rotate heavy.other child) fun _ => R.rotate heavy id
  · exact R.rotate heavy id

theorem rebalanceNode (id : NodeId) : R.Holds (Tree.rebalanceNode ns id) := by
  refine R.bind (R.update id) fun balance => ?_
  split
  · exact R.lighten .left id
  · split
    · exact R.lighten .right id
    · exact R.done _

theorem climb (bound : Nat) (link : Link) : R.Holds (Tree.climb ns bound link) := by
  induction bound generalizing link with
  | zero =>
    cases link with
    | none => exact R.done _
    | some id => exact R.fail _
  | succ bound ih =>
    cases link with
    | none => exact R.done _
    | some id =>
      exact R.bind (R.rebalanceNode id) fun top => R.bind (R.parent top) fun parent => ih parent

/-! #### Inserting and deleting -/

theorem leftmost (bound : Nat) (id : NodeId) : R.Holds (Tree.leftmost ns bound id) := by
  induction bound generalizing id with
  | zero => exact R.fail _
  | succ bound ih =>
    refine R.bind (R.child .left id) fun child => ?_
    cases child with
    | none => exact R.done _
    | some child => exact ih child

theorem splice (id : NodeId) : R.Holds (Tree.splice ns id) := by
  have linked : ∀ parent child : Link, R.Holds (do
      Tree.replaceChild ns parent id child
      IdPool.free ns id
      rebalanceFrom ns parent) :=
    fun parent child => R.bind (R.replaceChild parent id child) fun _ => R.bind (R.free id) fun _ =>
      R.climb walkBound parent
  refine R.bind (R.child .left id) fun left => ?_
  cases left with
  | some left =>
    simp only [pure_bind]
    exact R.bind (R.parent id) fun parent => R.bind (R.setParent left parent) fun _ =>
      linked parent (some left)
  | none =>
    refine R.bind (R.child .right id) fun child => R.bind (R.parent id) fun parent => ?_
    cases child with
    | some child => exact R.bind (R.setParent child parent) fun _ => linked parent (some child)
    | none => exact linked parent none

variable {t : Tree} (R : Rule t.ns) (key : List String)

theorem vacate (target : NodeId) : R.Holds (t.vacate target) := by
  refine R.bind (R.child .left target) fun left => R.bind (R.child .right target) fun right => ?_
  cases left with
  | none => exact R.done _
  | some left =>
    cases right with
    | none => exact R.done _
    | some right =>
      exact R.bind (R.leftmost walkBound right) fun successor =>
        R.bind (R.copyEntry successor target t.arity) fun _ => R.done _

theorem delete : R.Holds (t.delete key) := by
  refine R.bind (R.checkKey key) fun _ => R.bind (R.find key) fun found => ?_
  cases found with
  | none => exact R.done _
  | some target =>
    exact R.bind (R.vacate target) fun spliced => R.bind (R.splice spliced) fun _ =>
      R.bind R.size fun size => R.bind (R.setSize _) fun _ => R.done _

theorem insert (data : String) : R.Holds (t.insert key data) := by
  refine R.bind (R.checkKey key) fun _ => R.bind (R.place key) fun place => ?_
  cases place with
  | empty =>
    exact R.bind R.allocate fun leaf => R.bind (R.create leaf key data none) fun _ =>
      R.bind (R.setRoot _) fun _ => R.setSize 1
  | found id => exact R.setData id data
  | below id side =>
    exact R.bind R.allocate fun leaf => R.bind (R.create leaf key data (some id)) fun _ =>
      R.bind (R.setChild side id _) fun _ => R.bind R.size fun size =>
      R.bind (R.successor size) fun next => R.bind (R.setSize next) fun _ =>
      R.climb walkBound (some id)

end Rule

end Tree

end FlatStore
