import FlatStore.Cache
import FlatStore.Durability
import FlatStore.Error
import FlatStore.Toml.Document

/-! # Settings

    A database is opened with a cache policy, a threshold at which the whole
    cache is dropped, and a durability mode. A settings document may give any
    of them; what it leaves out has its default.

    * A document with an unknown top-level key, or a value of the wrong kind,
      is refused as a whole.
    * A policy is a table with its name under a tag key, or an array that starts
      with the name. A table may hold keys that its policy does not use.
    * Settings that no database can be opened with are refused afterwards, in a
      fixed order.
-/

namespace FlatStore

/-- Which cache stands in front of the byte store. -/
inductive CachePolicy where
  | perpetual
  | lru (capacity : Nat)
  deriving DecidableEq, Repr

/-- What a database is opened with. -/
structure Settings where
  cache : CachePolicy := .perpetual
  clearThreshold : Nat := 100000
  durability : Durability := default
  deriving DecidableEq, Repr

namespace Settings

/-- Refuse settings that no database can be opened with. -/
def validate (s : Settings) : Except SettingsFault Unit :=
  if s.cache = .lru 0 then .error .zeroCapacity
  else if s.clearThreshold = 0 then .error .zeroThreshold
  else if s.durability = .batched 0 then .error .zeroBatch
  else .ok ()

/-- The empty cache of a policy. -/
def emptyCache (s : Settings) : Except SettingsFault Cache :=
  match s.cache with
  | .perpetual => .ok default
  | .lru capacity =>
    match Lru.ofCapacity? capacity with
    | some cache => .ok (.lru cache)
    | none => .error .zeroCapacity

/-! ### Reading documents -/

/-- A size: an integer that is not negative. -/
def size? : Toml.Value → Option Nat
  | .integer n => if 0 ≤ n then some n.toNat else none
  | _ => none

/-- A choice between named alternatives, each of which has at most one size beside its name. The
name stands under `tag` and the size under a key of the alternative; or both stand in an array. -/
def choice? {α : Type} (tag : String) (plain : String → Option α)
    (sized : String → Option (String × (Nat → α))) : Toml.Value → Option α
  | .table entries => do
    let .string name ← entries.lookup tag | none
    match plain name with
    | some a => return a
    | none =>
      let (key, make) ← sized name
      return make (← size? (← entries.lookup key))
  | .array [.string name] => plain name
  | .array [.string name, v] => do
    let (_, make) ← sized name
    return make (← size? v)
  | _ => none

/-- A cache policy. -/
def cachePolicy? : Toml.Value → Option CachePolicy :=
  choice? "policy"
    (fun name => if name = "perpetual" then some .perpetual else none)
    (fun name => if name = "lru" then some ("capacity", .lru) else none)

/-- A durability mode. -/
def durability? : Toml.Value → Option Durability :=
  choice? "mode"
    (fun name =>
      if name = "none" then some .none else if name = "strict" then some .strict else none)
    (fun name => if name = "batched" then some ("batch_size", .batched) else none)

/-- The settings after one more key of a document. -/
def withKey (s : Settings) (key : String) (v : Toml.Value) : Option Settings :=
  match key with
  | "cache" => (cachePolicy? v).map fun cache => { s with cache }
  | "cache_clear_threshold" => (size? v).map fun clearThreshold => { s with clearThreshold }
  | "durability" => (durability? v).map fun durability => { s with durability }
  | _ => none

/-- The settings that a document gives. -/
def ofDocument (text : String) : Except SettingsFault Settings := do
  let read : Option Settings := do
    (← Toml.document text).foldlM (fun s (key, v) => s.withKey key v) {}
  match read with
  | none => throw .document
  | some s =>
    s.validate
    return s

/-! ### In words -/

/-- A cache policy in words. -/
def describePolicy : CachePolicy → String
  | .perpetual => "Perpetual"
  | .lru capacity => "Lru \x7b capacity: " ++ toString capacity ++ " \x7d"

/-- A durability mode in words. -/
def describeDurability : Durability → String
  | .none => "None"
  | .strict => "Strict"
  | .batched size => "Batched \x7b batch_size: " ++ toString size ++ " \x7d"

/-- The settings in words. -/
def describe (s : Settings) : String :=
  "StoreConfig \x7b cache: " ++ describePolicy s.cache ++ ", cache_clear_threshold: " ++
    toString s.clearThreshold ++ ", durability: " ++ describeDurability s.durability ++ " \x7d"

end Settings

end FlatStore
