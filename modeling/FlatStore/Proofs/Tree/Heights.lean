import FlatStore.Proofs.Tree.Run

/-! # Heights

    How high a tree gets, and what the walks of inserting and deleting meet on
    the way: no node that leans by more than two, no height or balance factor
    that does not fit into 32 bits, and no heavy side without a child. All of
    this comes from the balance of the tree before the call, because a walk
    starts from a branch that is one level off at most (`Uneven`).
-/

namespace FlatStore.Tree

variable {t : Tree} {c : Contents} {b : Branch} {d : Dictionary} {lost free : List NodeId}
  {high : Nat} {key : List String}

/-- The height of a tree with entries, and the number of entries that it takes. -/
theorem StoredBeside.fib_le_length (h : StoredBeside t c lost b d free high)
    (some_entries : d ≠ []) (small : high < Word.size64) :
    ∃ height : Nat, b.height = height ∧ Nat.fib (height + 3) ≤ d.length + 1 ∧ height ≤ 90 := by
  have nodes := h.kept.length_le
  have bound := Branch.height_le h.balanced (by omega)
  have entries := Branch.fib_le_size h.balanced
  rw [h.kept.entries.length_eq] at entries
  cases b with
  | leaf => exact absurd (Entries.nil_iff.1 h.kept.entries) some_entries
  | node l f r =>
    have top : (Branch.join .left l f r).Balanced := h.balanced
    obtain ⟨hl, -, height, -, -⟩ := top.of_join
    have := Branch.neg_one_le_height hl
    rw [Branch.height_node] at *
    obtain ⟨k, hk⟩ := Int.eq_ofNat_of_zero_le (show 0 ≤ f.height by omega)
    have index : (f.height + 3).toNat = k + 3 := by omega
    exact ⟨k, hk, index ▸ entries, by omega⟩

/-- The walk of an insert. -/
theorem StoredBeside.ascends_insert (h : StoredBeside t c lost b d free high) (value : String)
    (arity : key.length = t.arity) (room : high + 1 < Word.size64) :
    ∃ p c₁ vs c₂, (t.attach key value).run c = .ok (Trail.parent p) c₁ ∧
      Ascends t.ns p c₁ vs c₂ := by
  obtain ⟨p, b', free', high', c₁, run₁, uneven, -, bound, -⟩ := h.run_attach value arity room
  obtain ⟨vs, c₂, ascends, -⟩ := uneven.run_rebalanceFrom (by omega)
  exact ⟨p, c₁, vs, c₂, run₁, ascends⟩

/-- The walk of a delete. -/
theorem StoredBeside.ascends_delete (h : StoredBeside t c lost b d free high)
    (arity : key.length = t.arity) (small : high < Word.size64)
    (there : d.contains t.orders key = true) :
    ∃ p c₁ vs c₂, (t.extract key).run c = .ok (some (Trail.parent p)) c₁ ∧
      Ascends t.ns p c₁ vs c₂ := by
  obtain ⟨p, b', free', c₁, run₁, uneven, -⟩ := h.run_extract arity small there
  obtain ⟨vs, c₂, ascends, -⟩ := uneven.run_rebalanceFrom small
  exact ⟨p, c₁, vs, c₂, run₁, ascends⟩

variable {σ : Type} [ByteStore σ] {view : StoreView σ} {n : Nat} {f : FieldStore σ}

/-- A tree that some run leads to, with entries, has at least as many of them as a Fibonacci number
of its height asks for, and at most 90 levels above the lowest one. Inserting and deleting succeed:
no height or balance factor leaves the range of 32 bits, and where a node is rotated there is a
child to come up. Their walks are visits of the nodes up to the root, and all of these lean by two
at most (`Ascends`). -/
theorem heights_stay_low (h : Reachable t view n d f) (few : n + 1 < Word.size64) :
    (d ≠ [] → ∃ (size height : Nat) (f₁ f₂ : FieldStore σ),
      FieldStore.perform (Tree.size t.ns) f = .ok size f₁ ∧
      FieldStore.perform t.height f = .ok (height : Int) f₂ ∧
      Nat.fib (height + 3) ≤ size + 1 ∧ height ≤ 90) ∧
    (∀ key value, key.length = t.arity → n + 1 + 1 < Word.size64 →
      (∃ p c₁ vs c₂, (t.attach key value).run (view.contents f.store) = .ok (Trail.parent p) c₁ ∧
        Ascends t.ns p c₁ vs c₂) ∧
      (view.TakesAll ((t.insert key value).writes (view.contents f.store)) →
        ∃ f', FieldStore.perform (t.insert key value) f = .ok () f')) ∧
    ∀ key, key.length = t.arity →
      (d.contains t.orders key = true →
        ∃ p c₁ vs c₂,
          (t.extract key).run (view.contents f.store) = .ok (some (Trail.parent p)) c₁ ∧
          Ascends t.ns p c₁ vs c₂) ∧
      (d.contains t.orders key = false →
        (t.extract key).run (view.contents f.store) = .ok none (view.contents f.store)) ∧
      (view.TakesAll ((t.delete key).writes (view.contents f.store)) →
        ∃ f', FieldStore.perform (t.delete key) f = .ok (d.contains t.orders key) f') := by
  obtain ⟨b, free, high, served⟩ := h.served few
  have issued := served.issued
  refine ⟨?_, ?_, ?_⟩
  · intro some_entries
    obtain ⟨height, same, entries, bound⟩ := served.stored.fib_le_length some_entries (by omega)
    obtain ⟨f₁, size⟩ := served.query (asks_size t.ns).reads served.stored.run_size
    obtain ⟨f₂, top⟩ := served.query (asks_height t).reads served.stored.run_height
    exact ⟨d.length, height, f₁, f₂, size, same ▸ top, entries, bound⟩
  · intro key value arity more
    refine ⟨served.stored.ascends_insert value arity (by omega), fun takes => ?_⟩
    obtain ⟨f', -, -, -, performed, -⟩ := served.insert arity takes more
    exact ⟨f', performed⟩
  · intro key arity
    refine ⟨served.stored.ascends_delete arity (by omega), ?_, fun takes => ?_⟩
    · exact served.stored.run_extract_absent arity (by rw [walkBound]; omega)
    · obtain ⟨f', -, -, performed, -⟩ := served.delete arity takes few
      exact ⟨f', performed⟩

/-- Three keys in ascending order make a tree of height one, and it takes no fewer. -/
theorem height_of_three :
    ∃ (f f₁ f₂ : FieldStore Memory) (size height : Nat),
      Reachable ⟨1, [.asc], by simp⟩ Memory.view 3 [(["1"], "a"), (["2"], "b"), (["3"], "c")] f ∧
      FieldStore.perform (Tree.size 1) f = .ok size f₁ ∧
      FieldStore.perform (Tree.height ⟨1, [.asc], by simp⟩) f = .ok (height : Int) f₂ ∧
      Nat.fib (height + 3) ≤ size + 1 ∧ height ≤ 90 := by
  have start := reachable_empty ⟨1, [.asc], by simp⟩
  have run := ((start.step (.insert ["1"] "a") rfl fun _ _ => trivial).step
    (.insert ["2"] "b") rfl fun _ _ => trivial).step (.insert ["3"] "c") rfl fun _ _ => trivial
  have left : Move.onDictionary ⟨1, [.asc], by simp⟩ (Move.onDictionary ⟨1, [.asc], by simp⟩
      (Move.onDictionary ⟨1, [.asc], by simp⟩ [] (.insert ["1"] "a")) (.insert ["2"] "b"))
      (.insert ["3"] "c") = [(["1"], "a"), (["2"], "b"), (["3"], "c")] := by
    decide +kernel
  rw [left] at run
  obtain ⟨size, height, f₁, f₂, sized, measured, entries, bound⟩ :=
    (heights_stay_low run (by decide)).1 (by simp)
  exact ⟨_, f₁, f₂, size, height, run, sized, measured, entries, bound⟩

end FlatStore.Tree
