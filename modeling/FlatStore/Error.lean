import FlatStore.Key
import FlatStore.KeyOrder
import FlatStore.Text.Utf8

/-! # Errors

    What can go wrong, by cause, and the one place where causes get their
    wording. Absence is never an error.

    * `Error`: the operation reports it; whatever was written before stays.
    * `Defect`: a precondition that the caller broke or a number that left its
      range; the operation is abandoned on the spot.
    * `Failure`: how a sequence of field reads and writes can end early.
-/

namespace FlatStore

/-! ### Unreadable stored values -/

/-- What is wrong with the value of a field. -/
inductive ValueFault where
  | utf8 (fault : Utf8.Fault)
  | integer (fault : Integer.Fault) (raw : String)
  | link (raw : String)
  | order (name : KeyOrder.UnknownName)
  | missingNodeField
  | missingFreeSlot
  | described (detail : String)
  deriving DecidableEq, Repr

/-- The wording of a fault. -/
def ValueFault.message : ValueFault → String
  | .utf8 fault => fault.message
  | .integer fault raw => fault.message ++ " (" ++ Text.quoted raw ++ ")"
  | .link raw => "invalid link " ++ Text.quoted raw
  | .order name => name.message
  | .missingNodeField => "node field missing"
  | .missingFreeSlot => "free stack slot missing"
  | .described detail => detail

/-- The two sides of a node. -/
inductive Side where
  | left
  | right
  deriving DecidableEq, Repr

/-- The name of a side. -/
def Side.name : Side → String
  | .left => "left"
  | .right => "right"

/-- The side across. -/
def Side.other : Side → Side
  | .left => .right
  | .right => .left

/-- Stored data that contradicts itself or cannot be read. -/
inductive Damage where
  /-- The value under a key. -/
  | value (key : String) (fault : ValueFault)
  /-- A node that should be rotated away from a side where it has no child. -/
  | childless (ns : FileId) (node : NodeId) (side : Side)
  | described (detail : String)
  deriving DecidableEq, Repr

/-- The wording of damage. -/
def Damage.message : Damage → String
  | .value key fault => key ++ ": " ++ fault.message
  | .childless ns node side =>
    "tree " ++ toString ns ++ ": node " ++ toString node ++ " is heavy on the " ++ side.name ++
      " but has no " ++ side.name ++ " child"
  | .described detail => detail

/-! ### Refusals -/

/-- Key orders that do not fit a tree. -/
inductive OrderMismatch where
  /-- A tree cannot be opened with no order at all. -/
  | noOrders (ns : FileId)
  /-- The tree was created with another list. -/
  | different (ns : FileId) (recorded requested : List KeyOrder)
  /-- The key has a different number of components. -/
  | keyLength (ns : FileId) (expected actual : Nat)
  | described (detail : String)
  deriving DecidableEq, Repr

/-- The wording of a mismatch. -/
def OrderMismatch.message : OrderMismatch → String
  | .noOrders ns => "tree " ++ toString ns ++ " needs at least one key order"
  | .different ns recorded requested =>
    "tree " ++ toString ns ++ " was created with " ++ KeyOrder.joinList recorded ++ ", not " ++
      KeyOrder.joinList requested
  | .keyLength ns expected actual =>
    "tree " ++ toString ns ++ " keys have " ++ toString expected ++ " components, got " ++
      toString actual
  | .described detail => detail

/-- Settings that cannot be used. -/
inductive SettingsFault where
  | zeroCapacity
  | zeroThreshold
  | zeroBatch
  | noPath
  /-- The settings file is not a settings document. -/
  | document
  deriving DecidableEq, Repr

/-- The wording of a fault. -/
def SettingsFault.message : SettingsFault → String
  | .zeroCapacity => "LRU cache capacity must be at least 1"
  | .zeroThreshold => "cache_clear_threshold must be at least 1"
  | .zeroBatch => "batch_size must be at least 1"
  | .noPath => "no database path set; call .path() or .ephemeral()"
  | .document => "the settings file is not a settings document"

/-! ### Errors -/

/-- An error that an operation reports. -/
inductive Error where
  /-- The file system refused. -/
  | io (detail : String)
  | corruption (damage : Damage)
  /-- A value that cannot be written out. -/
  | serialization (detail : String)
  /-- The byte store refused. -/
  | storage (detail : String)
  | orderMismatch (mismatch : OrderMismatch)
  | settings (fault : SettingsFault)
  deriving DecidableEq, Repr

namespace Error

/-- The wording of an error. -/
def message : Error → String
  | .io detail => "I/O error: " ++ detail
  | .corruption damage => "corruption: " ++ damage.message
  | .serialization detail => "serialization error: " ++ detail
  | .storage detail => "storage error: " ++ detail
  | .orderMismatch mismatch => "key order mismatch: " ++ mismatch.message
  | .settings fault => "configuration error: " ++ fault.message

/-- Whether the file system refused. -/
def isIo : Error → Bool
  | .io _ => true
  | _ => false

/-- Whether stored data was found damaged. -/
def isCorruption : Error → Bool
  | .corruption _ => true
  | _ => false

/-- Whether the settings cannot be used. -/
def isSettings : Error → Bool
  | .settings _ => true
  | _ => false

/-- Whether a tree was opened with orders that do not fit. -/
def isOrderMismatch : Error → Bool
  | .orderMismatch _ => true
  | _ => false

/-- The value under `key` is damaged. -/
def corruptValue (key : String) (fault : ValueFault) : Error :=
  .corruption (.value key fault)

end Error

/-! ### Early ends -/

/-- Why an operation is abandoned on the spot. -/
inductive Defect where
  /-- A number left the range of its word. -/
  | overflow
  /-- A key with another number of components than the tree's. -/
  | keyLength
  /-- A tree without any key order. -/
  | noOrders
  /-- A bounded cache without room. -/
  | zeroCapacity
  deriving DecidableEq, Repr

/-- How a sequence of field reads and writes ends early. -/
inductive Failure where
  | error (e : Error)
  | defect (d : Defect)
  /-- It follows links in a circle and would never end. -/
  | endless
  deriving DecidableEq, Repr

end FlatStore
