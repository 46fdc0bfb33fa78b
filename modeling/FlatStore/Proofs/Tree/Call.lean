import FlatStore.Proofs.Tree.Run

/-! # Calls of a tree

    Inserting, deleting and all queries as values, each with the type of its
    result, its script and its answer. So what holds of all calls is stated
    once, and proved call by call.
-/

namespace FlatStore.Tree

/-- A call of a tree. -/
inductive Call where
  | insert (key : List String) (value : String)
  | delete (key : List String)
  | get (key : List String)
  | contains (key : List String)
  | size
  | isEmpty
  | height
  | keys
  | entries
  | top (n : Nat)

namespace Call

/-- What a call gives. -/
def Result : Call → Type
  | insert _ _ => Unit
  | delete _ => Bool
  | get _ => Option String
  | contains _ => Bool
  | size => Nat
  | isEmpty => Bool
  | height => Int
  | keys => List String
  | entries => List (List String × String)
  | top _ => List String

/-- What a call does. -/
def script (t : Tree) : (call : Call) → Script call.Result
  | insert key value => t.insert key value
  | delete key => t.delete key
  | get key => t.get key
  | contains key => t.contains key
  | size => Tree.size t.ns
  | isEmpty => t.isEmpty
  | height => t.height
  | keys => t.keys
  | entries => t.entries
  | top n => t.top n

/-- Keys have a component for each order. -/
def Fits (t : Tree) : Call → Prop
  | insert key _ | delete key | get key | contains key => key.length = t.arity
  | size | isEmpty | height | keys | entries | top _ => True

/-- The call changes nothing. -/
def IsQuery : Call → Prop
  | insert _ _ | delete _ => False
  | get _ | contains _ | size | isEmpty | height | keys | entries | top _ => True

/-- The number of inserts that a call is. -/
def inserts : Call → Nat
  | insert _ _ => 1
  | delete _ | get _ | contains _ | size | isEmpty | height | keys | entries | top _ => 0

/-- What a tree answers that has this shape and these entries. -/
def answer (t : Tree) (b : Branch) (d : Dictionary) : (call : Call) → call.Result
  | insert _ _ => ()
  | delete key => d.contains t.orders key
  | get key => d.get? t.orders key
  | contains key => d.contains t.orders key
  | size => d.length
  | isEmpty => d.isEmpty
  | height => b.height
  | keys => (d.map Prod.fst).flatten
  | entries => d
  | top n => (d.reverse.take n).map Prod.snd

end Call

variable {t : Tree} {call : Call}

/-- A rule for reads holds of all queries. -/
theorem ReadRule.query (R : ReadRule t.ns) (query : call.IsQuery) : R.Holds (call.script t) := by
  cases call with
  | insert | delete => exact query.elim
  | get key => exact R.get key
  | contains key => exact R.contains key
  | size => exact R.size
  | isEmpty => exact R.isEmpty
  | height => exact R.rootHeight
  | keys => exact R.keys
  | entries => exact R.entries
  | top n => exact R.top n

/-- A rule holds of all calls. -/
theorem Rule.holds (R : Rule t.ns) (call : Call) : R.Holds (call.script t) := by
  cases call with
  | insert key value => exact R.insert key value
  | delete key => exact R.delete key
  | get | contains | size | isEmpty | height | keys | entries | top =>
    exact R.toReadRule.query trivial

variable {c : Contents} {lost free : List NodeId} {b : Branch} {d : Dictionary} {high : Nat}

/-- A query answers from the shape and the entries of the tree. -/
theorem StoredBeside.run_query (h : StoredBeside t c lost b d free high) (query : call.IsQuery)
    (fits : call.Fits t) (small : high ≤ walkBound) :
    (call.script t).run c = .ok (call.answer t b d) c := by
  cases call with
  | insert | delete => exact query.elim
  | get key => exact h.run_get fits small
  | contains key => exact h.run_contains fits small
  | size => exact h.run_size
  | isEmpty => exact h.run_isEmpty
  | height => exact h.run_height
  | keys => exact h.run_keys small
  | entries => exact h.run_entries small
  | top n => exact h.run_top small n

/-- Every call succeeds with its answer. -/
theorem StoredBeside.run_call (h : StoredBeside t c lost b d free high) (fits : call.Fits t)
    (room : high + call.inserts < Word.size64) :
    ∃ c', (call.script t).run c = .ok (call.answer t b d) c' := by
  have small : high ≤ walkBound := by
    rw [walkBound]
    omega
  cases call with
  | insert key value =>
    obtain ⟨c', -, -, -, run, -⟩ := h.run_insert value fits room
    exact ⟨c', run⟩
  | delete key =>
    obtain ⟨c', -, -, run, -⟩ := h.run_delete fits room
    exact ⟨c', run⟩
  | get | contains | size | isEmpty | height | keys | entries | top =>
    exact ⟨c, h.run_query trivial fits small⟩

end FlatStore.Tree
