import FlatStore.Store

/-! # Memory store

    A byte store that lives in memory and counts the reads and writes it
    serves, so that a cache in front of it can be seen to work.
-/

namespace FlatStore

/-- The entries of a store and the traffic it has served. -/
structure Memory where
  entries : Std.TreeMap Bytes Bytes Bytes.compare := ∅
  reads : Nat := 0
  writes : Nat := 0

namespace Memory

/-- A store without entries that has served nothing. -/
def empty : Memory := {}

/-- The number of keys. -/
def size (m : Memory) : Nat := m.entries.size

/-- Whether no key was ever written. -/
def isEmpty (m : Memory) : Bool := m.entries.isEmpty

/-- The value under a key, without counting a read. -/
def get? (m : Memory) (key : Bytes) : Option Bytes := m.entries[key]?

/-- The store after one read was served. -/
def countRead (m : Memory) : Memory := { m with reads := m.reads + 1 }

/-- The store after one write was served. -/
def put (m : Memory) (key value : Bytes) : Memory :=
  { m with entries := m.entries.insert key value, writes := m.writes + 1 }

/-- The entries in the order of their keys. -/
def toList (m : Memory) : List (Bytes × Bytes) := m.entries.toList

instance : ByteStore Memory where
  read key := fun m => .ok (m.get? key) m.countRead
  write key value := fun m => .ok () (m.put key value)
  flush := pure ()

end Memory

end FlatStore
