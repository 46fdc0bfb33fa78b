import FlatStore.Proofs.Tree.Entries

/-! # What a tree compares

    A tree compares a key with the keys of its nodes, position by position
    under the orders of its positions. On the keys with a component for each
    order this is a total preorder.

    * **Components** are equal if they are one text or, under a numeric order,
      spell one integer of 64 bits (`SameComponent`). A text that spells none
      comes behind every text that does, also if it is made of digits.
    * **Keys** are equal if all their components are (`compareKeys_eq_iff`), and
      else the first position that differs decides (`compareKeys_of_same_before`).
-/

namespace FlatStore

/-! ### Integers of 64 bits -/

/-- The text spells an integer of 64 bits. -/
def Integer.Spells64 (s : String) (n : Int) : Prop :=
  Spells s n ∧ -(Word.half64 : Int) ≤ n ∧ n < Word.half64

namespace KeyOrder

open Integer

/-- A component ranks as the integer that it spells. -/
theorem integer?_eq_some_iff {s : String} {n : Int} : integer? s = some n ↔ Spells64 s n := by
  unfold integer? signed64
  constructor
  · intro h
    cases read : intWithin Word.half64 s with
    | error fault =>
      rw [read] at h
      cases h
    | ok m =>
      rw [read] at h
      cases h
      exact intWithin_sound (by decide) read
  · rintro ⟨spells, low, high⟩
    rw [spells.intWithin low high]
    rfl

theorem integer?_eq_none_iff {s : String} : integer? s = none ↔ ∀ n, ¬ Spells64 s n := by
  rw [Option.eq_none_iff_forall_ne_some]
  exact forall_congr' fun n => not_congr integer?_eq_some_iff

/-! ### Components -/

/-- The components are one text, or the order is numeric and they spell one integer. -/
def SameComponent (order : KeyOrder) (a b : String) : Prop :=
  a = b ∨ order ≠ .lex ∧ ∃ n, Spells64 a n ∧ Spells64 b n

theorem compareNumeric_eq_iff {ranks : Int → Int → Ordering}
    (same : ∀ x y, ranks x y = .eq ↔ x = y) (a b : String) :
    compareNumeric ranks a b = .eq ↔ a = b ∨ ∃ n, Spells64 a n ∧ Spells64 b n := by
  simp only [← integer?_eq_some_iff]
  unfold compareNumeric
  -- Texts of which just one is an integer are different texts.
  cases ha : integer? a with
  | none =>
    cases hb : integer? b with
    | none => simp
    | some y =>
      have differ : a ≠ b := by
        rintro rfl
        rw [ha] at hb
        cases hb
      simp [differ]
  | some x =>
    cases hb : integer? b with
    | none =>
      have differ : a ≠ b := by
        rintro rfl
        rw [ha] at hb
        cases hb
      simp [differ]
    | some y =>
      show ranks x y = .eq ↔ _
      rw [same]
      constructor
      · rintro rfl
        exact Or.inr ⟨x, rfl, rfl⟩
      · rintro (rfl | ⟨n, hx, hy⟩)
        · exact Option.some.inj (ha.symm.trans hb)
        · exact Option.some.inj (hx.trans hy.symm)

/-- Components compare equal just if they are the same under the order. -/
theorem compareComponents_eq_iff (order : KeyOrder) (a b : String) :
    order.compareComponents a b = .eq ↔ order.SameComponent a b := by
  unfold SameComponent
  cases order with
  | lex => simp [compareComponents]
  | asc =>
    simp only [compareComponents, ne_eq, reduceCtorEq, not_false_eq_true, true_and]
    exact compareNumeric_eq_iff (fun x y => Std.LawfulEqCmp.compare_eq_iff_eq) a b
  | desc =>
    simp only [compareComponents, ne_eq, reduceCtorEq, not_false_eq_true, true_and]
    refine compareNumeric_eq_iff (fun x y => ?_) a b
    rw [Std.LawfulEqCmp.compare_eq_iff_eq]
    exact eq_comm

/-- Under either numeric order an integer comes before every text that is none. -/
theorem compareComponents_of_integer {order : KeyOrder} (numeric : order ≠ .lex) {a b : String}
    (integer : ∃ n, Spells64 a n) (other : ∀ n, ¬ Spells64 b n) :
    order.compareComponents a b = .lt := by
  obtain ⟨n, spells⟩ := integer
  have ha := integer?_eq_some_iff.2 spells
  have hb := integer?_eq_none_iff.2 other
  cases order with
  | lex => exact absurd rfl numeric
  | asc => simp only [compareComponents, compareNumeric, ha, hb]
  | desc => simp only [compareComponents, compareNumeric, ha, hb]

/-! ### Keys -/

section Positions

variable {orders : List KeyOrder} {a b : List String}

/-- Keys compare equal just if they are the same at every position. -/
theorem compareKeys_eq_iff (ha : a.length = orders.length) (hb : b.length = orders.length) :
    compareKeys orders a b = .eq ↔
      ∀ i (h : i < orders.length), orders[i].SameComponent a[i] b[i] := by
  induction orders generalizing a b with
  | nil => exact ⟨fun _ i h => absurd h (Nat.not_lt_zero i), fun _ => rfl⟩
  | cons order orders ih =>
    obtain ⟨first, as, rfl⟩ := List.exists_cons_of_length_eq_add_one ha
    obtain ⟨first', bs, rfl⟩ := List.exists_cons_of_length_eq_add_one hb
    have rest := ih (Nat.succ.inj ha) (Nat.succ.inj hb)
    rw [compareKeys, Ordering.then_eq_eq, compareComponents_eq_iff, rest]
    constructor
    · rintro ⟨here, behind⟩ i h
      cases i with
      | zero => exact here
      | succ i => exact behind i (Nat.lt_of_succ_lt_succ h)
    · intro everywhere
      refine ⟨everywhere 0 (Nat.succ_pos _), ?_⟩
      intro i h
      exact everywhere (i + 1) (Nat.succ_lt_succ h)

/-- The first position that differs decides. -/
theorem compareKeys_of_same_before (ha : a.length = orders.length) (hb : b.length = orders.length)
    {i : Nat} (hi : i < orders.length)
    (before : ∀ j (h : j < i), orders[j].SameComponent a[j] b[j])
    (differ : orders[i].compareComponents a[i] b[i] ≠ .eq) :
    compareKeys orders a b = orders[i].compareComponents a[i] b[i] := by
  induction orders generalizing a b i with
  | nil => exact absurd hi (Nat.not_lt_zero i)
  | cons order orders ih =>
    obtain ⟨first, as, rfl⟩ := List.exists_cons_of_length_eq_add_one ha
    obtain ⟨first', bs, rfl⟩ := List.exists_cons_of_length_eq_add_one hb
    rw [compareKeys]
    cases i with
    | zero =>
      show (order.compareComponents first first').then _ = order.compareComponents first first'
      cases here : order.compareComponents first first' with
      | lt | gt => rfl
      | eq => exact absurd here differ
    | succ i =>
      -- The first components are the same, so the rest of the keys decides.
      have here := (compareComponents_eq_iff order first first').2 (before 0 (Nat.succ_pos i))
      rw [here, Ordering.eq_then]
      refine ih (Nat.succ.inj ha) (Nat.succ.inj hb) (Nat.lt_of_succ_lt_succ hi) ?_ differ
      intro j h
      exact before (j + 1) (Nat.succ_lt_succ h)

end Positions

/-- The component at a position. -/
def Keys.component {orders : List KeyOrder} (key : Keys orders) (i : Fin orders.length) : String :=
  key.1.get (i.cast key.2.symm)

end KeyOrder

open KeyOrder Integer

/-- What a tree compares is a total preorder on the keys with a component for each of its orders:
the key that it looks for and the key of a node, at every node. Two keys are equal in it just if
they are the same at every position. Where two keys first differ under a numeric order, ascending or
descending, an integer of 64 bits comes before every text that spells none. -/
theorem Tree.comparison_is_total_preorder (t : Tree) :
    (∀ (c : Contents) (id : NodeId) (a b : Keys t.orders) (data : String),
      Node.Holds c t.ns id (b.1, data) →
      (t.compareAt a.1 id).run c = .ok (compareKeys t.orders a.1 b.1) c) ∧
    (∀ a b : Keys t.orders,
      compareKeys t.orders b.1 a.1 = (compareKeys t.orders a.1 b.1).swap) ∧
    (∀ a b : Keys t.orders,
      (compareKeys t.orders a.1 b.1).isLE ∨ (compareKeys t.orders b.1 a.1).isLE) ∧
    (∀ a b c : Keys t.orders, (compareKeys t.orders a.1 b.1).isLE →
      (compareKeys t.orders b.1 c.1).isLE → (compareKeys t.orders a.1 c.1).isLE) ∧
    (∀ a b : Keys t.orders, compareKeys t.orders a.1 b.1 = .eq ↔
      ∀ i, (t.orders.get i).SameComponent (a.component i) (b.component i)) ∧
    (∀ (a b : Keys t.orders) (i : Fin t.orders.length), t.orders.get i ≠ .lex →
      (∀ j < i, (t.orders.get j).SameComponent (a.component j) (b.component j)) →
      (∃ n, Spells64 (a.component i) n) → (∀ n, ¬ Spells64 (b.component i) n) →
      compareKeys t.orders a.1 b.1 = .lt) := by
  have swaps : ∀ a b : Keys t.orders,
      compareKeys t.orders b.1 a.1 = (compareKeys t.orders a.1 b.1).swap :=
    fun a b => compareKeys_swap t.orders b.1 a.1
  refine ⟨?_, swaps, ?_, ?_, ?_, ?_⟩
  · intro c id a b data holds
    exact run_compareAt holds b.2
  · intro a b
    rw [swaps a b]
    cases compareKeys t.orders a.1 b.1 with
    | lt | eq => exact Or.inl rfl
    | gt => exact Or.inr rfl
  · intro a b c
    exact compareKeys_isLE_trans b.2
  · intro a b
    rw [compareKeys_eq_iff a.2 b.2]
    exact ⟨fun same i => same i.1 i.2, fun same i h => same ⟨i, h⟩⟩
  · intro a b i numeric before integer other
    have here := compareComponents_of_integer numeric integer other
    have decides := compareKeys_of_same_before a.2 b.2 i.2
      (fun j h => before ⟨j, h.trans i.2⟩ h) (by
        show (t.orders.get i).compareComponents (a.component i) (b.component i) ≠ .eq
        rw [here]
        decide)
    exact decides.trans here

/-- `007` and `7` are one number under the ascending order. Behind it, 2⁶³ is no integer of 64 bits,
so under the descending order it comes behind `9`. -/
theorem Tree.comparison_of_spellings :
    ∃ c : Contents, Node.Holds c 1 5 (["7", "9"], "data") ∧
      (Tree.compareAt ⟨1, [.asc, .desc], by simp⟩ ["007", "9223372036854775808"] 5).run c =
        .ok .gt c := by
  obtain ⟨c, -, -, holds, -⟩ := Node.run_create (fun _ => none) 1 ["7", "9"] "data"
    (show 5 < Word.size64 by decide) Link.fits_none
  obtain ⟨compares, swaps, -, -, -, before⟩ :=
    comparison_is_total_preorder ⟨1, [.asc, .desc], by simp⟩
  let stored : Keys [.asc, .desc] := ⟨["7", "9"], rfl⟩
  let wanted : Keys [.asc, .desc] := ⟨["007", "9223372036854775808"], rfl⟩
  have seven : ∀ s, integer? s = some 7 → Spells64 s 7 := fun s => integer?_eq_some_iff.1
  have first : SameComponent .asc "7" "007" :=
    Or.inr ⟨by decide, 7, seven "7" (by decide), seven "007" (by decide)⟩
  have less : compareKeys [.asc, .desc] stored.1 wanted.1 = .lt := by
    refine before stored wanted 1 (by decide) ?_ ⟨9, integer?_eq_some_iff.1 (by decide)⟩
      (integer?_eq_none_iff.1 (by decide))
    intro j h
    obtain rfl : j = ⟨0, by decide⟩ := Fin.ext (Nat.lt_one_iff.1 h)
    exact first
  refine ⟨c, holds, ?_⟩
  rw [compares c 5 wanted stored "data" holds, swaps stored wanted]
  show EStateM.Result.ok (compareKeys [.asc, .desc] stored.1 wanted.1).swap c = _
  rw [less]
  rfl

end FlatStore
