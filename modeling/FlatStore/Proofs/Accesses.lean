import FlatStore.Proofs.Coherence
import FlatStore.Proofs.Footprint

/-! # Accesses

    What a script asks of a field store, one call for each field that it reads
    or writes, in order.

    * **On a field store** the accesses go as far as the calls succeed
      (`FieldStore.accesses`).
    * **On contents** they follow from what is stored (`Script.accesses`). Those
      of one script behind another are appended (`accesses_bind_ok`).
    * Both agree where the store takes the writes (`accesses_shows`).

    So a script that leaves nothing behind still shows in its reads. One script
    comes to another if it only reads before it does what the other one does
    (`ComesTo`).
-/

namespace FlatStore

namespace FieldStore

/-- A call of a field store for a single field. -/
inductive Access where
  | get (key : String)
  | put (key value : String)

/-- Whether the call is a read. -/
def Access.isGet : Access → Bool
  | get _ => true
  | put _ _ => false

/-- The reads and writes of a script, first ones first; the last one may have failed. -/
def accesses {σ α : Type} [ByteStore σ] : Script α → FieldStore σ → List Access
  | .done _, _ => []
  | .fail _, _ => []
  | .read key next, f =>
    .get key :: match FieldStore.get key f with
      | .ok found f => accesses (next found) f
      | .error _ _ => []
  | .write key value next, f =>
    .put key value :: match FieldStore.put key value f with
      | .ok () f => accesses next f
      | .error _ _ => []

end FieldStore

namespace Script

variable {α β : Type} {c c' : Contents}

/-- The reads and writes of a script that runs on the given contents. -/
def accesses : Script α → Contents → List FieldStore.Access
  | .done _, _ => []
  | .fail _, _ => []
  | .read key next, c =>
    .get key :: match c.read key with
      | .ok found => (next found).accesses c
      | .error _ => []
  | .write key value next, c => .put key value :: next.accesses (c.put key value)

theorem accesses_bind (s : Script α) (f : α → Script β) (c : Contents) :
    (s >>= f).accesses c = s.accesses c ++
      match s.run c with
      | .ok a c => (f a).accesses c
      | .error _ _ => [] := by
  show (s.bind f).accesses c = _
  induction s generalizing c with
  | done | fail => rfl
  | read key next ih =>
    simp only [bind, accesses, run]
    cases c.read key with
    | ok found => exact congrArg (.get key :: ·) (ih found c)
    | error e => rfl
  | write key value next ih => exact congrArg (.put key value :: ·) (ih (c.put key value))

theorem accesses_bind_ok {s : Script α} {f : α → Script β} {a : α} (run : s.run c = .ok a c') :
    (s >>= f).accesses c = s.accesses c ++ (f a).accesses c' := by
  rw [accesses_bind, run]

/-- A script that only asks makes no other accesses than reads. -/
theorem Asks.isGet_of_mem {S : Structure} {s : Script α} (asks : s.Asks S) (c : Contents) :
    ∀ a ∈ s.accesses c, a.isGet = true := by
  induction s with
  | done | fail => exact List.forall_mem_nil _
  | read key next ih =>
    rw [accesses]
    refine List.forall_mem_cons.2 ⟨rfl, ?_⟩
    split
    · exact ih _ (asks.2 _)
    · exact List.forall_mem_nil _
  | write => exact asks.elim

/-! ### Reads in front -/

/-- On these contents the script reads some fields, and then does what the other one does. -/
structure ComesTo (c : Contents) (s s' : Script α) : Prop where
  run : s.run c = s'.run c
  accesses : ∃ looks : List FieldStore.Access, (∀ a ∈ looks, a.isGet = true) ∧
    s.accesses c = looks ++ s'.accesses c

namespace ComesTo

variable {s s' s'' : Script α}

theorem refl (c : Contents) (s : Script α) : ComesTo c s s :=
  ⟨rfl, [], List.forall_mem_nil _, rfl⟩

theorem trans (h : ComesTo c s s') (h' : ComesTo c s' s'') : ComesTo c s s'' := by
  obtain ⟨looks, gets, first⟩ := h.accesses
  obtain ⟨looks', gets', rest⟩ := h'.accesses
  refine ⟨h.run.trans h'.run, looks ++ looks', List.forall_mem_append.2 ⟨gets, gets'⟩, ?_⟩
  rw [first, rest, List.append_assoc]

end ComesTo

/-- Behind a question, a script comes to what the answer makes of it. -/
theorem Asks.comesTo {S : Structure} {s : Script α} (asks : s.Asks S) {a : α}
    (answer : s.run c = .ok a c) (f : α → Script β) : ComesTo c (s >>= f) (f a) :=
  ⟨run_bind_ok answer, s.accesses c, asks.isGet_of_mem c, accesses_bind_ok answer⟩

end Script

namespace FieldStore

variable {σ α : Type} [ByteStore σ] {view : StoreView σ} {f : FieldStore σ} {c : Contents}

/-- Where the store takes all writes of a script, its accesses are those that it makes on the
contents. -/
theorem accesses_shows (h : Shows view f c) {s : Script α} (takes : view.TakesAll (s.writes c)) :
    accesses s f = s.accesses c := by
  -- Both go through the script: a read finds the same, and no write is refused.
  induction s generalizing f c with
  | done | fail => rfl
  | read key next ih =>
    obtain ⟨f₁, shows₁, read⟩ := get_shows h key
    unfold accesses
    simp only [Script.writes, Script.accesses, read] at takes ⊢
    cases found : c.read key with
    | error e => rfl
    | ok value =>
      simp only [found] at takes ⊢
      exact congrArg (.get key :: ·) (ih value shows₁ takes)
  | write key value next ih =>
    obtain ⟨f₁, shows₁, write⟩ := put_shows h (takes (key, value) (by simp [Script.writes]))
    unfold accesses
    simp only [Script.accesses, write]
    rw [ih shows₁ fun w mem => takes w (by simp [Script.writes, mem])]

end FieldStore

end FlatStore
