import FlatStore.Script

/-! # Id pools

    A namespace has a pool of ids: the largest id ever issued, and a stack of
    ids that were given back. The stack is a count and one field per place;
    fields above the top keep old ids and mean nothing.

    * **Allocating** takes the top of the stack, or else the next fresh id.
    * **Freeing** writes the place before the count, so a failure in between
      leaves the stack as it was.
-/

namespace FlatStore.IdPool

/-- The largest id ever issued; zero before the first. -/
def highWater (ns : FileId) : Script Nat := do
  return (← Script.getParsed Integer.unsigned64 (Key.highWater ns).text).getD 0

/-- The number of ids on the stack. -/
def freeCount (ns : FileId) : Script Nat := do
  return (← Script.getParsed Integer.unsigned64 (Key.freeCount ns).text).getD 0

/-- Issue an id. -/
def allocate (ns : FileId) : Script NodeId := do
  match ← freeCount ns with
  | slot + 1 =>
    let key := (Key.freeSlot ns slot).text
    match ← Script.getParsed Integer.unsigned64 key with
    | none => Script.throw (.corruptValue key .missingFreeSlot)
    | some id =>
      Script.put (Key.freeCount ns).text (toString slot)
      return id
  | 0 =>
    let next ← Script.successor (← highWater ns)
    Script.put (Key.highWater ns).text (toString next)
    return next

/-- Give an id back. -/
def free (ns : FileId) (id : NodeId) : Script Unit := do
  let count ← freeCount ns
  Script.put (Key.freeSlot ns count).text (toString id)
  let count ← Script.successor count
  Script.put (Key.freeCount ns).text (toString count)

end FlatStore.IdPool
