import FlatStore.Proofs.Footprint
import FlatStore.Proofs.Tree.Rules

/-! # Queries write nothing

    A script that only reads (`Script.Reads`) has no writes, whatever it finds.
    Every way of asking a tree is such a script, also on damaged trees, and it
    reads nothing outside the namespace of the tree.
-/

namespace FlatStore

namespace Script

variable {α : Type} {s : Script α}

/-- No branch of the script writes. -/
def Reads : Script α → Prop
  | .done _ => True
  | .fail _ => True
  | .read _ next => ∀ found, (next found).Reads
  | .write _ _ _ => False

theorem Reads.writes_eq (h : s.Reads) (c : Contents) : s.writes c = [] := by
  induction s with
  | done | fail => rfl
  | read key next ih =>
    rw [writes]
    split
    · exact ih _ (h _)
    · rfl
  | write => exact h.elim

/-- Every store takes nothing. -/
theorem Reads.takesAll {σ : Type} [ByteStore σ] (h : s.Reads) (view : StoreView σ) (c : Contents) :
    view.TakesAll (s.writes c) := by
  rw [h.writes_eq]
  exact view.takesAll_nil

theorem Asks.reads {S : Structure} (h : s.Asks S) : s.Reads := by
  induction s with
  | done | fail => trivial
  | read key next ih => exact fun found => ih found (h.2 found)
  | write => exact h.elim

end Script

open Script

/-! ### Nodes -/

namespace Node

variable (ns : FileId) (id : NodeId)

theorem asks_read (field : NodeField) : (read ns id field).Asks (.space ns) := by
  refine (asks_get (.node ns id field)).bind ?_
  intro found
  cases found <;> trivial

theorem asks_readLink (field : NodeField) : (readLink ns id field).Asks (.space ns) := by
  refine (asks_read ns id field).bind ?_
  intro raw
  split <;> trivial

theorem asks_readNumber (field : NodeField) : (readNumber ns id field).Asks (.space ns) := by
  refine (asks_getParsed _ (.node ns id field)).bind ?_
  intro found
  cases found <;> trivial

end Node

/-! ### Trees -/

namespace Tree

theorem asks_root (ns : FileId) : (root ns).Asks (.space ns) := by
  refine (asks_get (.root ns)).bind ?_
  intro found
  cases found with
  | none => trivial
  | some raw =>
    simp only
    split <;> trivial

/-- Asking the namespace is a rule for the reads of its tree. -/
def asking (ns : FileId) : ReadRule ns where
  Holds := Asks (.space ns)
  done _ := trivial
  fail _ := trivial
  bind := Asks.bind
  height id := Node.asks_readNumber ns id .height
  balance id := Node.asks_readNumber ns id .balance
  data id := Node.asks_read ns id .data
  child side id := Node.asks_readLink ns id side.field
  parent id := Node.asks_readLink ns id .parent
  component id i := Node.asks_read ns id (.component i)
  root := asks_root ns
  size := (asks_getParsed _ (.size ns)).bind fun _ => trivial

theorem asks_size (ns : FileId) : (size ns).Asks (.space ns) := (asking ns).size

variable (t : Tree) (key : List String)

theorem asks_get_payload : (t.get key).Asks (.space t.ns) := (asking t.ns).get key

theorem asks_contains : (t.contains key).Asks (.space t.ns) := (asking t.ns).contains key

theorem asks_isEmpty : (t.isEmpty).Asks (.space t.ns) := (asking t.ns).isEmpty

theorem asks_height : (t.height).Asks (.space t.ns) := (asking t.ns).rootHeight

theorem asks_keys : (t.keys).Asks (.space t.ns) := (asking t.ns).keys

theorem asks_entries : (t.entries).Asks (.space t.ns) := (asking t.ns).entries

theorem asks_top (n : Nat) : (t.top n).Asks (.space t.ns) := (asking t.ns).top n

end Tree

end FlatStore
