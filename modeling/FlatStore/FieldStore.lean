import FlatStore.Cache
import FlatStore.Script
import FlatStore.Store

/-! # Cached fields

    A field store is a byte store with a cache of texts in front of it.

    * **Reading** looks in the cache, falls through to the store on a miss and
      caches what it found there.
    * **Writing** goes to the store first and into the cache after.
    * Once the cache holds more than the **clear threshold** it is emptied, on
      top of what its own policy does.

    Hits, misses and such clears are counted. `perform` runs a script.
-/

namespace FlatStore

/-- A byte store, the cache in front of it, and what the cache has done. -/
structure FieldStore (σ : Type) where
  store : σ
  cache : Cache := default
  clearThreshold : Nat := 100000
  hits : Nat := 0
  misses : Nat := 0
  thresholdClears : Nat := 0

namespace FieldStore

variable {σ α : Type}

/-- Empty the cache if it holds more than the threshold. -/
def enforceThreshold (f : FieldStore σ) : FieldStore σ :=
  if f.cache.size > f.clearThreshold then
    { f with cache := f.cache.clear, thresholdClears := f.thresholdClears + 1 }
  else f

/-- Cache a text, then look at the threshold. -/
def remember (f : FieldStore σ) (key value : String) : FieldStore σ :=
  { f with cache := f.cache.set key value }.enforceThreshold

/-- Empty the cache. -/
def clearCache (f : FieldStore σ) : FieldStore σ :=
  { f with cache := f.cache.clear }

/-! ### Single fields -/

/-- The text of a field. -/
def get [ByteStore σ] (key : String) : EStateM Error (FieldStore σ) (Option String) := fun f =>
  match f.cache.get? key with
  | some (value, cache) => .ok (some value) { f with cache, hits := f.hits + 1 }
  | none =>
    let f := { f with misses := f.misses + 1 }
    match ByteStore.read key.toUTF8 f.store with
    | .error e store => .error e { f with store }
    | .ok none store => .ok none { f with store }
    | .ok (some bytes) store =>
      let f := { f with store }
      match Utf8.decode bytes with
      | .error fault => .error (.corruptValue key (.utf8 fault)) f
      | .ok value => .ok (some value) (f.remember key value)

/-- Write a field. -/
def put [ByteStore σ] (key value : String) : EStateM Error (FieldStore σ) Unit := fun f =>
  match ByteStore.write key.toUTF8 value.toUTF8 f.store with
  | .error e store => .error e { f with store }
  | .ok () store => .ok () ({ f with store }.remember key value)

/-- Flush the byte store. -/
def flush [ByteStore σ] : EStateM Error (FieldStore σ) Unit := fun f =>
  match ByteStore.flush f.store with
  | .error e store => .error e { f with store }
  | .ok () store => .ok () { f with store }

/-- Run a script; what it wrote before an early end stays written. -/
def perform [ByteStore σ] : Script α → EStateM Failure (FieldStore σ) α
  | .done result, f => .ok result f
  | .fail failure, f => .error failure f
  | .read key next, f =>
    match get key f with
    | .ok found f => perform (next found) f
    | .error e f => .error (.error e) f
  | .write key value next, f =>
    match put key value f with
    | .ok () f => perform next f
    | .error e f => .error (.error e) f

/-! ### What the cache has done -/

/-- The share of reads that the cache answered; zero before the first read. -/
def hitRate (f : FieldStore σ) : Float :=
  let total := f.hits + f.misses
  if total = 0 then 0 else Float.ofNat f.hits / Float.ofNat total

/-- The field store in words. -/
def describe (f : FieldStore σ) : String :=
  "FieldStore \x7b clear_threshold: " ++ toString f.clearThreshold ++
    ", cache: CacheStats \x7b hits: " ++ toString f.hits ++ ", misses: " ++ toString f.misses ++
    ", threshold_clears: " ++ toString f.thresholdClears ++ ", entries: " ++
    toString f.cache.size ++ " \x7d \x7d"

end FieldStore

end FlatStore
