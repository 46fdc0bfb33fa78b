import FlatStore.Proofs.Tree.Queries
import FlatStore.Request

/-! # Footprints of trees

    Changing a tree, like asking it, touches nothing outside the namespace of
    the tree, also on damaged trees; nor does opening it.
-/

namespace FlatStore

open Script

theorem Key.owner_of_namespace {k : Key} {ns : FileId} (h : k.namespace? = some ns) :
    k.owner = .space ns := by
  cases k <;> simp_all [Key.namespace?, Key.owner]

namespace Tree

variable (ns : FileId)

/-! ### Changing the tree -/

/-- Staying within the namespace is a rule for all that a tree does. -/
def staying (ns : FileId) : Rule ns where
  Holds := Within (.space ns)
  done _ := trivial
  fail _ := trivial
  bind := Within.bind
  height id := ((asking ns).height id).within
  balance id := ((asking ns).balance id).within
  data id := ((asking ns).data id).within
  child side id := ((asking ns).child side id).within
  parent id := ((asking ns).parent id).within
  component id i := ((asking ns).component id i).within
  root := (asking ns).root.within
  size := (asking ns).size.within
  highWater := (IdPool.asks_highWater ns).within
  freeCount := (IdPool.asks_freeCount ns).within
  topId slot := by
    refine (asks_getParsed _ (.freeSlot ns slot)).within.bind ?_
    intro found
    cases found <;> trivial
  put k own _ value := Key.owner_of_namespace own ▸ within_put k value

theorem within_delete (t : Tree) (key : List String) : (t.delete key).Within (.space t.ns) :=
  (staying t.ns).delete key

theorem within_insert (t : Tree) (key : List String) (data : String) :
    (t.insert key data).Within (.space t.ns) :=
  (staying t.ns).insert key data

/-! ### Opening -/

theorem asks_recordedOrders : (recordedOrders ns).Asks (.space ns) := by
  refine (asks_get (.orders ns)).bind ?_
  intro found
  cases found with
  | none => trivial
  | some raw =>
    simp only
    split <;> trivial

theorem asks_withOrders (orders : List KeyOrder) : (withOrders ns orders).Asks (.space ns) := by
  unfold withOrders
  split <;> trivial

theorem within_openRecorded (orders : List KeyOrder) :
    (openRecorded ns orders).Within (.space ns) := by
  unfold openRecorded
  split
  · refine (asks_recordedOrders ns).within.bind ?_
    intro recorded
    cases recorded with
    | none => exact (within_put (.orders ns) _).bind fun _ => trivial
    | some recorded =>
      simp only
      split <;> trivial
  · trivial

theorem within_openFor (requested : Option (List KeyOrder)) (arity : Nat) (record : Bool) :
    (openFor ns requested arity record).Within (.space ns) := by
  refine (asks_recordedOrders ns).within.bind ?_
  intro recorded
  simp only
  split
  · trivial
  · split
    · exact within_openRecorded ns _
    · exact (asks_withOrders ns _).within

end Tree

end FlatStore
