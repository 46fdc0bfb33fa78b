import FlatStore.Proofs.Tree.Stored

/-! # Traversals

    Walking through a stored tree finds its entries in order, from either side,
    and stops behind the last one that is wanted (`run_collect`). So keys,
    entries and the greatest payloads are those of the dictionary.
-/

namespace FlatStore

/-- The ids of the nodes in order, from a side on. -/
def Branch.idsFrom (near : Side) (b : Branch) : List NodeId :=
  match near with
  | .left => b.ids
  | .right => b.ids.reverse

/-- Induction on a branch that tells its two sides apart by the first one visited. -/
theorem Branch.join_induction (near : Side) {motive : Branch → Prop} (leaf : motive .leaf)
    (join : ∀ n f m, motive n → motive m → motive (.join near n f m)) (b : Branch) : motive b := by
  induction b with
  | leaf => exact leaf
  | node l f r ihl ihr =>
    cases near with
    | left => exact join l f r ihl ihr
    | right => exact join r f l ihr ihl

namespace Tree

variable {t : Tree} {c : Contents} {b : Branch} {d : Dictionary} {lost free : List NodeId}
  {high : Nat} {ns : FileId} {α : Type}

theorem idsFrom_join (near : Side) (n : Branch) (f : Fork) (m : Branch) :
    (Branch.join near n f m).idsFrom near = n.idsFrom near ++ f.id :: m.idsFrom near := by
  cases near <;> simp [Branch.join, Branch.idsFrom]

/-- How a walk ends that finds `xs`, in this order, behind what was `found` before. -/
def walked (c : Contents) (wanted : Option Nat) (xs found : List α)
    (next : Option Nat → List α → Script (List α)) : EStateM.Result Failure Contents (List α) :=
  match wanted with
  | none => (next none (xs.reverse ++ found)).run c
  | some n =>
    if xs.length < n then (next (some (n - xs.length)) (xs.reverse ++ found)).run c
    else .ok (found.reverse ++ xs.take n) c

/-- A walk that finds `xs` goes on, if it does, with one that finds `ys`. -/
theorem walked_append {wanted : Option Nat} {xs ys found : List α}
    {next next' : Option Nat → List α → Script (List α)}
    (goes_on : ∀ w, w ≠ some 0 →
      (next' w (xs.reverse ++ found)).run c = walked c w ys (xs.reverse ++ found) next) :
    walked c wanted xs found next' = walked c wanted (xs ++ ys) found next := by
  cases wanted with
  | none =>
    have rest := goes_on none (by simp)
    simp only [walked] at rest ⊢
    rw [rest, List.reverse_append, List.append_assoc]
  | some n =>
    simp only [walked, List.length_append]
    by_cases short : xs.length < n
    · have rest := goes_on (some (n - xs.length)) (by simp; omega)
      have all : xs.take n = xs := List.take_of_length_le (by omega)
      rw [if_pos short, rest]
      simp only [walked]
      by_cases short' : xs.length + ys.length < n
      · rw [if_pos short', if_pos (by omega), List.reverse_append, List.append_assoc,
          Nat.sub_add_eq]
      · rw [if_neg short', if_neg (by omega), List.take_append, all]
        simp
    · have taken : (xs ++ ys).take n = xs.take n := List.take_append_of_le_length (by omega)
      rw [if_neg short, if_neg (by omega), taken]

/-- A walk that wants no more than one entry ends with the first one it finds. -/
theorem walked_cons {wanted : Option Nat} (some_wanted : wanted ≠ some 0) (x : α)
    (xs found : List α) (next : Option Nat → List α → Script (List α)) :
    walked c wanted (x :: xs) found next =
      match wanted.map (· - 1) with
      | some 0 => .ok (x :: found).reverse c
      | wanted => walked c wanted xs (x :: found) next := by
  rcases wanted with _ | _ | _ | n
  · simp [walked]
  · exact absurd rfl some_wanted
  · simp [walked]
  · simp [walked]

/-- A walk through a stored branch visits its nodes in order. -/
theorem run_collect {near : Side} {visit : NodeId → Script α} {bound : Nat} {parent : Link}
    {wanted : Option Nat} {xs found : List α} {next : Option Nat → List α → Script (List α)}
    (h : b.StoredIn c ns parent)
    (visits : List.Forall₂ (fun id x => (visit id).run c = .ok x c) (b.idsFrom near) xs)
    (enough : b.ids.length ≤ bound) (some_wanted : wanted ≠ some 0) :
    (collect ns near visit bound b.link wanted found next).run c =
      walked c wanted xs found next := by
  induction b using Branch.join_induction near generalizing bound parent wanted xs found next with
  | leaf =>
    have none_found : xs = [] := by
      cases near <;> exact List.forall₂_nil_left_iff.1 visits
    rw [Branch.link_leaf, none_found]
    cases wanted with
    | none => cases bound <;> rfl
    | some n =>
      have : 0 < n := Nat.pos_of_ne_zero fun he => some_wanted (congrArg some he)
      simp only [walked, List.length_nil, if_pos this]
      cases bound <;> rfl
  | join n f m ihn ihm =>
    have longer : n.ids.length + m.ids.length + 1 ≤ bound := by
      cases near <;> simp [Branch.join] at enough <;> omega
    obtain ⟨bound, rfl⟩ : ∃ k, bound = k + 1 := ⟨bound - 1, by omega⟩
    rw [idsFrom_join] at visits
    obtain ⟨xs, rest, rfl, before, rest'⟩ := forall₂_of_append visits
    cases rest' with
    | @cons _ x _ ms here after =>
      obtain ⟨-, -, hnear, hfar, hn, hm⟩ := Branch.storedIn_join.1 h
      rw [Branch.link_join, collect, Script.run_bind_ok (Node.run_child _ hnear),
        ihn hn before (by omega) some_wanted]
      -- Behind the near branch, the walk goes on with the node and the far branch.
      apply walked_append
      intro w hw
      rw [Script.run_bind_ok here, walked_cons hw]
      rcases w.map (· - 1) with _ | _ | k
      · exact (Script.run_bind_ok (Node.run_child _ hfar)).trans
          (ihm hm after (by omega) (by simp))
      · rfl
      · exact (Script.run_bind_ok (Node.run_child _ hfar)).trans
          (ihm hm after (by omega) (by simp))

/-- What a traversal finds, from a side on. -/
theorem StoredBeside.run_traverse (h : StoredBeside t c lost b d free high) {near : Side}
    {wanted : Option Nat} {visit : NodeId → Script α} {xs : List α}
    (visits : List.Forall₂ (fun id x => (visit id).run c = .ok x c) (b.idsFrom near) xs)
    (some_wanted : wanted ≠ some 0) (small : high ≤ walkBound) :
    (t.traverse near wanted visit).run c = .ok (xs.take (wanted.getD xs.length)) c := by
  have nodes := h.kept.length_le
  rw [traverse, Script.run_bind_ok (run_root h.shape.trail),
    run_collect h.shape.branch visits (by omega) some_wanted]
  cases wanted with
  | none => simp [walked]
  | some n =>
    simp only [walked]
    by_cases short : xs.length < n
    · rw [if_pos short]
      simp [List.take_of_length_le (Nat.le_of_lt short)]
    · rw [if_neg short]
      simp

/-! ### The three listings -/

/-- The keys in order, one after the other. -/
theorem StoredBeside.run_keys (h : StoredBeside t c lost b d free high) (small : high ≤ walkBound) :
    (t.keys).run c = .ok (d.map Prod.fst).flatten c := by
  have visits : List.Forall₂ (fun id k => (Node.key t.ns id t.arity).run c = .ok k c)
      (b.idsFrom .left) (d.map Prod.fst) := by
    rw [List.forall₂_map_right_iff]
    refine h.kept.entries.forall₂ ?_
    intro id e he holds
    have arity : e.1.length = t.arity := h.kept.sorted.arity e he
    exact arity ▸ Node.run_key holds
  rw [keys, Script.run_bind_ok (h.run_traverse visits (by simp) small), Option.getD_none,
    List.take_length]
  rfl

/-- The entries in order. -/
theorem StoredBeside.run_entries (h : StoredBeside t c lost b d free high)
    (small : high ≤ walkBound) : (t.entries).run c = .ok d c := by
  have visits : List.Forall₂ (fun id e => (do
      return (← Node.key t.ns id t.arity, ← Node.data t.ns id) : Script _).run c = .ok e c)
      (b.idsFrom .left) d := by
    refine h.kept.entries.forall₂ ?_
    intro id e he holds
    have arity : e.1.length = t.arity := h.kept.sorted.arity e he
    rw [← arity, Script.run_bind_ok (Node.run_key holds), Script.run_bind_ok (Node.run_data holds)]
    rfl
  rw [entries, h.run_traverse visits (by simp) small]
  simp

/-- The payloads of the greatest keys, greatest first. -/
theorem StoredBeside.run_top (h : StoredBeside t c lost b d free high)
    (small : high ≤ walkBound) (n : Nat) :
    (t.top n).run c = .ok ((d.reverse.take n).map Prod.snd) c := by
  rw [top]
  by_cases zero : n = 0
  · subst zero
    simp
  · have visits : List.Forall₂ (fun id x => (Node.data t.ns id).run c = .ok x c)
        (b.idsFrom .right) (d.reverse.map Prod.snd) := by
      rw [List.forall₂_map_right_iff]
      refine List.rel_reverse (h.kept.entries.forall₂ ?_)
      intro id e _ holds
      exact Node.run_data holds
    rw [if_neg zero, h.run_traverse visits (by simpa using zero) small]
    simp [List.map_take]

end Tree

end FlatStore
