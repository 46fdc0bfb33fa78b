import FlatStore.Proofs.Interrupted

/-! # Applied writes

    A script that is cut short has made the first of its writes and no more.

    * **Contents after writes**: what a script leaves is what its writes make of
      the contents that it started from (`left_eq_putAll`).
    * **Traces**: the writes that a byte store has taken while a script ran are
      recorded in their order (`FieldStore.applied`).
    * On an unreliable store they are the first of the writes that the script
      makes on the contents, and all of them if it ends without an error
      (`applied_unreliable`).
-/

namespace FlatStore

/-! ### Contents after writes -/

namespace Contents

/-- The contents after fields were written one after the other. -/
def putAll (c : Contents) (writes : List (String × String)) : Contents :=
  writes.foldl (fun c w => c.put w.1 w.2) c

theorem putAll_append (c : Contents) (first rest : List (String × String)) :
    c.putAll (first ++ rest) = (c.putAll first).putAll rest :=
  List.foldl_append

end Contents

namespace Script

variable {α β : Type} {s : Script α} {c c' : Contents}

theorem writes_bind (s : Script α) (f : α → Script β) (c : Contents) :
    (s >>= f).writes c = s.writes c ++
      match s.run c with
      | .ok a c => (f a).writes c
      | .error _ _ => [] := by
  show (s.bind f).writes c = _
  induction s generalizing c with
  | done | fail => rfl
  | read key next ih =>
    simp only [bind, writes, run]
    cases c.read key with
    | ok found => exact ih found c
    | error e => rfl
  | write key value next ih => exact congrArg ((key, value) :: ·) (ih (c.put key value))

theorem writes_bind_ok {f : α → Script β} {a : α} (run : s.run c = .ok a c') :
    (s >>= f).writes c = s.writes c ++ (f a).writes c' := by
  rw [writes_bind, run]

/-- What a script leaves is what its writes make of the contents. -/
theorem left_eq_putAll (s : Script α) (c : Contents) :
    leftBy (s.run c) = c.putAll (s.writes c) := by
  induction s generalizing c with
  | done | fail => rfl
  | read key next ih =>
    simp only [run, writes]
    cases c.read key with
    | ok found => exact ih found c
    | error e => rfl
  | write key value next ih => exact ih (c.put key value)

/-- Keys that a script spares have kept their values behind the first few of its writes. -/
theorem Spares.changes_putAll {P : Key → Prop} (h : s.Spares P) {first : List (String × String)}
    (within : first <+: s.writes c) : Contents.Changes (fun k => ¬ P k) c (c.putAll first) := by
  induction s generalizing c first with
  | done | fail =>
    rw [List.prefix_nil.1 within]
    exact .refl _ c
  | read key next ih =>
    rw [writes] at within
    split at within
    · exact ih _ (h _) within
    · rw [List.prefix_nil.1 within]
      exact .refl _ c
  | write key value next ih =>
    cases first with
    | nil => exact .refl _ c
    | cons w first =>
      obtain ⟨rfl, rest⟩ := List.cons_prefix_cons.1 within
      exact (Contents.Changes.of_spared h.1 c value).trans (ih h.2 rest)

end Script

/-! ### Traces -/

namespace FieldStore

variable {σ α : Type} [ByteStore σ]

/-- The writes that the byte store takes while a script runs, in order. -/
def applied : Script α → FieldStore σ → List (String × String)
  | .done _, _ => []
  | .fail _, _ => []
  | .read key next, f =>
    match get key f with
    | .ok found f => applied (next found) f
    | .error _ _ => []
  | .write key value next, f =>
    match put key value f with
    | .ok () f => (key, value) :: applied next f
    | .error _ _ => []

variable {f : FieldStore σ} {c : Contents}

/-- Where the store takes all writes of a script, they are the ones that it makes on the contents. -/
theorem applied_shows {view : StoreView σ} (h : Shows view f c) {s : Script α}
    (takes : view.TakesAll (s.writes c)) : applied s f = s.writes c := by
  induction s generalizing f c with
  | done | fail => rfl
  | read key next ih =>
    obtain ⟨f₁, shows₁, read⟩ := get_shows h key
    unfold applied
    simp only [Script.writes, read] at takes ⊢
    cases found : c.read key with
    | error e => rfl
    | ok value =>
      simp only [found] at takes
      exact ih value shows₁ takes
  | write key value next ih =>
    obtain ⟨f₁, shows₁, write⟩ := put_shows h (takes (key, value) (by simp [Script.writes]))
    unfold applied
    simp only [Script.writes, write]
    rw [ih shows₁ fun w mem => takes w (by simp [Script.writes, mem])]

/-- A script that fails without a write leaves everything as it is. -/
theorem perform_refused {view : StoreView σ} (h : Shows view f c) {s : Script α} {e : Failure}
    (run : s.run c = .error e c) (nothing : s.writes c = []) :
    ∃ f', perform s f = .error e f' ∧ applied s f = [] ∧ Shows view f' c := by
  have takes : view.TakesAll (s.writes c) := by
    rw [nothing]
    exact view.takesAll_nil
  obtain ⟨f', ends⟩ := perform_simulates h takes
  rw [run] at ends
  exact ⟨f', ends.1, (applied_shows h takes).trans nothing, ends.2⟩

variable {view : Unreliable σ}

/-- The writes that the store has taken are the first of those that the script makes on the
contents, and it reflects what they make of these. If the script succeeds, they are all. -/
theorem applied_unreliable (h : Reflects view f c) (s : Script α) :
    Meets (fun _ f' => applied s f = s.writes c ∧ Reflects view f' (c.putAll (applied s f)))
      (fun _ f' => applied s f <+: s.writes c ∧ Reflects view f' (c.putAll (applied s f)))
      (perform s f) := by
  induction s generalizing f c with
  | done a => exact ⟨rfl, h⟩
  | fail e => exact ⟨List.prefix_rfl, h⟩
  | read key next ih =>
    have asked := get_unreliable h key
    unfold perform applied
    cases run : get key f with
    | ok found f₁ =>
      obtain ⟨read, reflects⟩ := asked.of_ok run
      simp only [Script.writes, read]
      exact ih found reflects
    | error e f₁ => exact ⟨List.nil_prefix, (asked.of_error run).2⟩
  | write key value next ih =>
    have written := put_unreliable h key value
    unfold perform applied
    cases run : put key value f with
    | ok _ f₁ =>
      refine (ih (written.of_ok run)).mono ?_ ?_
      · rintro _ f' ⟨all, reflects⟩
        exact ⟨congrArg ((key, value) :: ·) all, reflects⟩
      · rintro _ f' ⟨first, reflects⟩
        exact ⟨(List.prefix_cons_inj _).2 first, reflects⟩
    | error e f₁ => exact ⟨List.nil_prefix, (written.of_error run).2⟩

end FieldStore

end FlatStore
