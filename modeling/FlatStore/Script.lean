import FlatStore.Error

/-! # Field scripts

    An operation on stored structures is a script: it reads a field and goes
    on according to what it found, writes a field and goes on, or ends with a
    result or early. A script says nothing about where the fields are kept or
    cached; running it on a store is another module's work. So one induction
    on scripts covers every operation on every structure.
-/

namespace FlatStore

/-- A sequence of field reads and writes that ends with an `α` or early. -/
inductive Script (α : Type) where
  | done (result : α)
  | fail (failure : Failure)
  /-- Read the field under `key`; go on with its text, or with nothing if it is absent. -/
  | read (key : String) (next : Option String → Script α)
  /-- Write the field under `key`, then go on. -/
  | write (key value : String) (next : Script α)

namespace Script

variable {α β : Type}

/-- One script, then another that depends on its result. -/
def bind : Script α → (α → Script β) → Script β
  | .done result, f => f result
  | .fail failure, _ => .fail failure
  | .read key next, f => .read key fun found => (next found).bind f
  | .write key value next, f => .write key value (next.bind f)

instance : Monad Script where
  pure := .done
  bind := bind

theorem bind_done (s : Script α) : s.bind .done = s := by
  induction s with
  | done | fail => rfl
  | read key next ih => exact congrArg (Script.read key) (funext ih)
  | write key value next ih => exact congrArg (Script.write key value) ih

theorem bind_assoc {γ : Type} (s : Script α) (f : α → Script β) (g : β → Script γ) :
    (s.bind f).bind g = s.bind fun a => (f a).bind g := by
  induction s with
  | done | fail => rfl
  | read key next ih => exact congrArg (Script.read key) (funext ih)
  | write key value next ih => exact congrArg (Script.write key value) ih

instance : LawfulMonad Script :=
  LawfulMonad.mk' Script
    (fun s => bind_done s)
    (fun _ _ => rfl)
    (fun s f g => bind_assoc s f g)

/-! ### Single steps -/

/-- The text of a field. -/
def get (key : String) : Script (Option String) := .read key .done

/-- Write a field. -/
def put (key value : String) : Script Unit := .write key value (.done ())

/-- End with an error. -/
def throw (e : Error) : Script α := .fail (.error e)

/-- End because of a broken precondition or a number out of range. -/
def abandon (d : Defect) : Script α := .fail (.defect d)

/-- The number in a field; a text that is none is damage. -/
def getParsed (parse : String → Except Integer.Fault α) (key : String) : Script (Option α) := do
  match ← get key with
  | none => return none
  | some raw =>
    match parse raw with
    | .ok value => return some value
    | .error fault => throw (.corruptValue key (.integer fault raw))

/-- The number after `n`, which has to fit into 64 bits. -/
def successor (n : Nat) : Script Nat :=
  if n + 1 < Word.size64 then return n + 1 else abandon .overflow

end Script

end FlatStore
