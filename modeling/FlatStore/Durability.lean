/-! # Durability

    Every write reaches the file before it is acknowledged; the durability
    mode only decides how often the file is synced to the disk behind it.
-/

namespace FlatStore

/-- How often the log is synced. -/
inductive Durability where
  /-- Never. -/
  | none
  /-- After every write. -/
  | strict
  /-- Once `size` writes are waiting; a size of zero counts as one. -/
  | batched (size : Nat)
  deriving DecidableEq, Repr

namespace Durability

instance : Inhabited Durability := ⟨.batched 64⟩

/-- Whether a write that leaves `waiting` writes unsynced must sync. -/
def mustSync : Durability → Nat → Bool
  | .none, _ => false
  | .strict, _ => true
  | .batched size, waiting => max size 1 ≤ waiting

/-- The mode in words. -/
def description : Durability → String
  | .none => "No fsync (fastest, OS-buffered)"
  | .strict => "fsync per write (safest, slowest)"
  | .batched _ => "Batched fsync (balanced speed/safety)"

end Durability

end FlatStore
