import FlatStore.Cache.Lru

/-! # Caches

    The cache in front of a byte store is one of two kinds: it keeps every
    entry, or it keeps the most recently used ones up to a capacity.
-/

namespace FlatStore

/-- A cache of field texts. -/
inductive Cache where
  | perpetual (entries : Std.TreeMap String String)
  | lru (cache : Lru)

namespace Cache

instance : Inhabited Cache := ⟨.perpetual ∅⟩

/-- The number of entries. -/
def size : Cache → Nat
  | .perpetual entries => entries.size
  | .lru cache => cache.size

/-- Whether the key is cached; nothing changes. -/
def contains (c : Cache) (key : String) : Bool :=
  match c with
  | .perpetual entries => entries.contains key
  | .lru cache => cache.contains key

/-- The cached value, and the cache after it was asked for. -/
def get? (c : Cache) (key : String) : Option (String × Cache) :=
  match c with
  | .perpetual entries => (entries[key]?).map fun value => (value, c)
  | .lru cache => (cache.get? key).map fun (value, cache) => (value, .lru cache)

/-- Cache a value. -/
def set (c : Cache) (key value : String) : Cache :=
  match c with
  | .perpetual entries => .perpetual (entries.insert key value)
  | .lru cache => .lru (cache.set key value)

/-- Take a key out, with its value if it was cached. -/
def remove (c : Cache) (key : String) : Option String × Cache :=
  match c with
  | .perpetual entries => (entries[key]?, .perpetual (entries.erase key))
  | .lru cache =>
    let (value, cache) := cache.remove key
    (value, .lru cache)

/-- Drop all entries. -/
def clear : Cache → Cache
  | .perpetual _ => .perpetual ∅
  | .lru cache => .lru cache.clear

end Cache

end FlatStore
