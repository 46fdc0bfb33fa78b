import Std.Data.TreeMap

/-! # Least recently used cache

    A bounded cache keeps its entries in a map and, beside it, its keys from
    the most to the least recently used. A hit and a `set` move the key to the
    front. A new key first drives out keys from the back until there is room;
    those are counted. Removing and clearing are not evictions.
-/

namespace FlatStore

/-- A cache that holds at most `capacity` entries. -/
structure Lru where
  entries : Std.TreeMap String String := ∅
  /-- The keys, most recently used first. -/
  recency : List String := []
  capacity : Nat
  /-- Entries driven out since the cache was made. -/
  evictions : Nat := 0
  capacity_pos : 0 < capacity

namespace Lru

/-- An empty cache; there is none without capacity. -/
def ofCapacity? (capacity : Nat) : Option Lru :=
  if h : 0 < capacity then some { capacity, capacity_pos := h } else none

/-- The number of entries. -/
def size (c : Lru) : Nat := c.entries.size

/-- Whether the key is cached; its recency stays as it is. -/
def contains (c : Lru) (key : String) : Bool := c.entries.contains key

/-- Put a key at the front. -/
def touch (c : Lru) (key : String) : Lru :=
  { c with recency := key :: c.recency.erase key }

/-- The cached value; a hit moves the key to the front. -/
def get? (c : Lru) (key : String) : Option (String × Lru) :=
  (c.entries[key]?).map fun value => (value, c.touch key)

/-- Drive out the key at the back. -/
def evict (c : Lru) : Lru :=
  match c.recency.getLast? with
  | none => c
  | some victim =>
    { c with
      entries := c.entries.erase victim
      recency := c.recency.dropLast
      evictions := c.evictions + 1 }

/-- Drive out keys, at most `n`, until there is room for one more. -/
def makeRoom (c : Lru) : Nat → Lru
  | 0 => c
  | n + 1 => if c.size < c.capacity then c else makeRoom c.evict n

/-- Cache a value. A key that is cached moves to the front; a new one makes room first. -/
def set (c : Lru) (key value : String) : Lru :=
  if c.contains key then
    { c.touch key with entries := c.entries.insert key value }
  else
    -- No more keys can be driven out than there are.
    let c := c.makeRoom c.size
    { c with entries := c.entries.insert key value, recency := key :: c.recency }

/-- Take a key out, with its value if it was cached. -/
def remove (c : Lru) (key : String) : Option String × Lru :=
  (c.entries[key]?,
    { c with entries := c.entries.erase key, recency := c.recency.erase key })

/-- Drop all entries. -/
def clear (c : Lru) : Lru :=
  { c with entries := ∅, recency := [] }

/-- The cache in words. -/
def describe (c : Lru) : String :=
  "LruCache \x7b size: " ++ toString c.size ++ ", capacity: " ++ toString c.capacity ++
    ", evictions: " ++ toString c.evictions ++ " \x7d"

end Lru

end FlatStore
