import FlatStore.Proofs.Coherence

/-! # Laws of byte stores

    What a cache may rely on, whichever byte store is behind it (`StoreLaws`):
    reads do not fail, give what is there and change nothing that a later call
    could tell; a write takes effect under its key alone, or fails and changes
    nothing.

    * `StoreLaws.memory`: a memory store keeps the laws.
    * `Refusing`: a store of which any chosen writes are refused;
      `StoreLaws.refusing` says that it keeps the laws if the store does.
-/

namespace FlatStore

/-! ### Calls with the same outcome -/

/-- Two calls gave the same, and the states that they left are related. -/
inductive SameOutcome {ε σ τ α : Type} (R : σ → τ → Prop) :
    EStateM.Result ε σ α → EStateM.Result ε τ α → Prop where
  | ok {s : σ} {t : τ} (a : α) (h : R s t) : SameOutcome R (.ok a s) (.ok a t)
  | error {s : σ} {t : τ} (e : ε) (h : R s t) : SameOutcome R (.error e s) (.error e t)

theorem SameOutcome.left {ε σ τ α : Type} {R : σ → τ → Prop} {result : EStateM.Result ε σ α}
    {result' : EStateM.Result ε τ α} (h : SameOutcome R result result') :
    R (leftBy result) (leftBy result') := by
  cases h with
  | ok _ related | error _ related => exact related

/-! ### The laws -/

/-- A byte store that keeps to its interface. Its `state` is what calls can tell of it: everything but
what reads leave behind. -/
structure StoreLaws (σ : Type) [ByteStore σ] where
  State : Type
  state : σ → State
  contents : σ → Contents
  contents_same : ∀ s s', state s = state s' → contents s = contents s'
  sound : σ → Prop
  read : ∀ s key, sound s → ∃ s', ByteStore.read key s = .ok (contents s key) s' ∧ sound s' ∧
    state s' = state s
  /-- A write that fails changes nothing. -/
  write : ∀ s key value, sound s →
    match ByteStore.write key value s with
    | .ok _ s' => sound s' ∧ contents s' = fun k => if k = key then some value else contents s k
    | .error _ s' => sound s' ∧ contents s' = contents s
  write_same : ∀ s s' key value, sound s → sound s' → state s = state s' →
    SameOutcome (state · = state ·) (ByteStore.write key value s) (ByteStore.write key value s')
  flush : ∀ s, sound s →
    sound (leftBy (ByteStore.flush s)) ∧ contents (leftBy (ByteStore.flush s)) = contents s
  flush_same : ∀ s s', sound s → sound s' → state s = state s' →
    SameOutcome (state · = state ·) (ByteStore.flush s) (ByteStore.flush s')

namespace StoreLaws

/-- A memory store counts what it serves; calls can tell its entries only. -/
def memory : StoreLaws Memory where
  State := Contents
  state := Memory.view.contents
  contents := Memory.view.contents
  contents_same _ _ same := same
  sound _ := True
  read := Memory.view.read
  write m key value _ := by
    obtain ⟨m', run, -, contents⟩ := Memory.view.write m key value trivial trivial
    rw [run]
    exact ⟨trivial, contents⟩
  write_same m m' key value _ _ same := by
    obtain ⟨n, run, -, contents⟩ := Memory.view.write m key value trivial trivial
    obtain ⟨n', run', -, contents'⟩ := Memory.view.write m' key value trivial trivial
    rw [run, run']
    exact .ok () (by rw [contents, contents', same])
  flush _ _ := ⟨trivial, rfl⟩
  flush_same _ _ _ _ same := .ok () same

end StoreLaws

/-! ### Refused writes -/

/-- A byte store in front of which some writes are refused, each by its number among the writes that
were tried. -/
structure Refusing (σ : Type) where
  store : σ
  refusal : Nat → Option Error
  tried : Nat := 0

namespace Refusing

variable {σ α : Type}

/-- Pass a call on to the store. -/
def pass (call : EStateM Error σ α) : EStateM Error (Refusing σ) α := fun r =>
  match call r.store with
  | .ok a store => .ok a { r with store }
  | .error e store => .error e { r with store }

/-- The store with one more write tried. -/
def count (r : Refusing σ) : Refusing σ := { r with tried := r.tried + 1 }

instance [ByteStore σ] : ByteStore (Refusing σ) where
  read key := pass (ByteStore.read key)
  write key value := fun r =>
    match r.refusal r.tried with
    | some e => .error e r.count
    | none => pass (ByteStore.write key value) r.count
  flush := pass ByteStore.flush

end Refusing

namespace StoreLaws

variable {σ α : Type} [ByteStore σ]

/-- A call that is passed on has the outcome that it has on the store. -/
theorem pass_same (laws : StoreLaws σ) {call : EStateM Error σ α} {r r' : Refusing σ}
    (h : SameOutcome (laws.state · = laws.state ·) (call r.store) (call r'.store))
    (refusal : r.refusal = r'.refusal) (tried : r.tried = r'.tried) :
    SameOutcome (fun r r' : Refusing σ =>
        (laws.state r.store, r.refusal, r.tried) = (laws.state r'.store, r'.refusal, r'.tried))
      (Refusing.pass call r) (Refusing.pass call r') := by
  unfold Refusing.pass
  generalize call r.store = result at h
  generalize call r'.store = result' at h
  cases h with
  | ok a same => exact .ok a (by simp only [same, refusal, tried])
  | error e same => exact .error e (by simp only [same, refusal, tried])

/-- A store that keeps the laws still does when any of its writes are refused. -/
def refusing (laws : StoreLaws σ) : StoreLaws (Refusing σ) where
  State := laws.State × (Nat → Option Error) × Nat
  state r := (laws.state r.store, r.refusal, r.tried)
  contents r := laws.contents r.store
  contents_same _ _ same := laws.contents_same _ _ (congrArg Prod.fst same)
  sound r := laws.sound r.store
  read r key sound := by
    obtain ⟨s', run, sound', same⟩ := laws.read r.store key sound
    refine ⟨{ r with store := s' }, ?_, sound', by rw [same]⟩
    simp only [ByteStore.read, Refusing.pass, run]
  write r key value sound := by
    simp only [ByteStore.write]
    cases r.refusal r.tried with
    | some e => exact ⟨sound, rfl⟩
    | none =>
      have written := laws.write r.store key value sound
      simp only [Refusing.pass, Refusing.count]
      cases run : ByteStore.write key value r.store <;> rw [run] at written <;> exact written
  write_same r r' key value sound sound' same := by
    simp only [Prod.mk.injEq] at same
    obtain ⟨same, refusal, tried⟩ := same
    simp only [ByteStore.write, ← refusal, ← tried]
    cases r.refusal r.tried with
    | some e => exact .error e (by simp only [Refusing.count, same, refusal, tried])
    | none =>
      exact laws.pass_same (laws.write_same _ _ key value sound sound' same) refusal
        (congrArg (· + 1) tried)
  flush r sound := by
    have flushed := laws.flush r.store sound
    simp only [ByteStore.flush, Refusing.pass]
    cases run : (ByteStore.flush : EStateM Error σ Unit) r.store <;> rw [run] at flushed <;>
      exact flushed
  flush_same r r' sound sound' same := by
    simp only [Prod.mk.injEq] at same
    obtain ⟨same, refusal, tried⟩ := same
    exact laws.pass_same (laws.flush_same _ _ sound sound' same) refusal tried

end StoreLaws

end FlatStore
