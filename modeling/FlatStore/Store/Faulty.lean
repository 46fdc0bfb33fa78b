import FlatStore.Store.Memory

/-! # A memory store that fails on demand

    The store serves a given number of further writes, or reads, and refuses
    all after them. A refused operation changes nothing and is not counted.
    The writes it served are remembered in order.
-/

namespace FlatStore

/-- A memory store with an allowance of writes and of reads; none means no limit. -/
structure Faulty where
  memory : Memory := {}
  writesLeft : Option Nat := none
  readsLeft : Option Nat := none
  /-- The writes served, latest first. -/
  served : List (Bytes × Bytes) := []

namespace Faulty

instance : ByteStore Faulty where
  read key := fun s =>
    match s.readsLeft with
    | some 0 => .error (.storage "injected read failure") s
    | left =>
      .ok (s.memory.get? key)
        { s with memory := s.memory.countRead, readsLeft := left.map (· - 1) }
  write key value := fun s =>
    match s.writesLeft with
    | some 0 => .error (.storage "injected write failure") s
    | left =>
      .ok ()
        { s with
          memory := s.memory.put key value
          writesLeft := left.map (· - 1)
          served := (key, value) :: s.served }
  flush := pure ()

end Faulty

end FlatStore
