import FlatStore.Tree

/-! # Recorded key orders

    A namespace can record the orders its tree was created with. The first
    opening with `openTree` records them; every later one has to name the same
    list.
-/

namespace FlatStore.Tree

/-- The orders recorded for a namespace. -/
def recordedOrders (ns : FileId) : Script (Option (List KeyOrder)) := do
  let key := (Key.orders ns).text
  match ← Script.get key with
  | none => return none
  | some raw =>
    match KeyOrder.parseList raw with
    | .ok orders => return some orders
    | .error name => Script.throw (.corruptValue key (.order name))

/-- Open the tree of a namespace under orders that agree with the recorded ones, or become them. -/
def openRecorded (ns : FileId) (orders : List KeyOrder) : Script Tree := do
  if h : orders ≠ [] then
    match ← recordedOrders ns with
    | none => Script.put (Key.orders ns).text (KeyOrder.joinList orders)
    | some recorded =>
      if recorded ≠ orders then
        Script.throw (.orderMismatch (.different ns recorded orders))
    return ⟨ns, orders, h⟩
  else
    Script.throw (.orderMismatch (.noOrders ns))

end FlatStore.Tree
