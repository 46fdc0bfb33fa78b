import FlatStore.Error

/-! # Byte stores

    All structures rest on one interface: read the value under a key, write a
    value under a key, flush. A store is a value of its own type; an operation
    gives back the store it leaves behind, also when it reports an error.
-/

namespace FlatStore

/-- A store of byte values under byte keys. -/
class ByteStore (σ : Type) where
  read (key : Bytes) : EStateM Error σ (Option Bytes)
  write (key value : Bytes) : EStateM Error σ Unit
  flush : EStateM Error σ Unit

end FlatStore
