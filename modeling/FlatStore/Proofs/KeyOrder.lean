import FlatStore.KeyOrder
import Mathlib.Data.List.Basic

/-! # Laws of key orders

    Each order of a component is oriented and transitive, and so is the
    comparison of whole keys, as long as all keys have one component for each
    order. Keys that compare equal need not be the same: `1` and `01` are one
    key under `asc`.

    A list of orders is read back from its stored text (`parseList_joinList`).
-/

namespace FlatStore.KeyOrder

/-! ### Components -/

section Numeric

variable {ranks : Int → Int → Ordering}

theorem compareNumeric_swap [Std.OrientedCmp ranks] (a b : String) :
    compareNumeric ranks a b = (compareNumeric ranks b a).swap := by
  unfold compareNumeric
  cases integer? a <;> cases integer? b
  · exact Std.OrientedOrd.eq_swap
  · rfl
  · rfl
  · exact Std.OrientedCmp.eq_swap

instance [Std.TransCmp ranks] : Std.TransCmp (compareNumeric ranks) where
  eq_swap := compareNumeric_swap _ _
  isLE_trans {a b c} hab hbc := by
    cases ha : integer? a <;> cases hb : integer? b <;> cases hc : integer? c <;>
      simp only [compareNumeric, ha, hb, hc] at *
    all_goals first
      | exact Std.TransOrd.isLE_trans hab hbc
      | exact Std.TransCmp.isLE_trans hab hbc
      | contradiction
      | rfl

end Numeric

instance (order : KeyOrder) : Std.TransCmp order.compareComponents :=
  match order with
  | .lex => inferInstanceAs (Std.TransCmp fun a b : String => compare a b)
  | .asc => inferInstanceAs (Std.TransCmp (compareNumeric fun x y => compare x y))
  | .desc => inferInstanceAs (Std.TransCmp (compareNumeric fun x y => compare y x))

/-! ### Keys -/

theorem compareKeys_swap (orders : List KeyOrder) (a b : List String) :
    compareKeys orders a b = (compareKeys orders b a).swap := by
  induction orders generalizing a b with
  | nil => rfl
  | cons order orders ih =>
    cases a with
    | nil => cases b <;> rfl
    | cons a as =>
      cases b with
      | nil => rfl
      | cons b bs =>
        have first : order.compareComponents a b = (order.compareComponents b a).swap :=
          Std.OrientedCmp.eq_swap
        rw [compareKeys, compareKeys, Ordering.swap_then, ← ih, first]

theorem compareKeys_isLE_trans {orders : List KeyOrder} {a b c : List String}
    (hb : b.length = orders.length) (hab : (compareKeys orders a b).isLE)
    (hbc : (compareKeys orders b c).isLE) : (compareKeys orders a c).isLE := by
  induction orders generalizing a b c with
  | nil => rfl
  | cons order orders ih =>
    cases b with
    | nil => cases hb
    | cons b bs =>
      cases a with
      | nil => rfl
      | cons a as =>
        cases c with
        | nil => rfl
        | cons c cs =>
          -- The first components decide unless they are equal on both sides.
          rw [compareKeys, Ordering.isLE_then_iff_or] at hab hbc ⊢
          rcases hab with hab | ⟨hab, rest⟩
          · rcases hbc with hbc | ⟨hbc, -⟩
            · exact Or.inl (Std.TransCmp.lt_trans hab hbc)
            · exact Or.inl (Std.TransCmp.lt_of_lt_of_eq hab hbc)
          · rcases hbc with hbc | ⟨hbc, rest'⟩
            · exact Or.inl (Std.TransCmp.lt_of_eq_of_lt hab hbc)
            · exact Or.inr ⟨Std.TransCmp.eq_trans hab hbc,
                ih (by simpa using hb) rest rest'⟩

/-- Keys with one component for each order. -/
def Keys (orders : List KeyOrder) := { key : List String // key.length = orders.length }

instance (orders : List KeyOrder) :
    Std.TransCmp fun a b : Keys orders => compareKeys orders a.1 b.1 where
  eq_swap {a b} := compareKeys_swap orders a.1 b.1
  isLE_trans {_ b _} := compareKeys_isLE_trans b.2

section Triples

variable {orders : List KeyOrder} {a b c : List String} (ha : a.length = orders.length)
  (hb : b.length = orders.length) (hc : c.length = orders.length)

include ha hb hc

theorem compareKeys_lt_trans (hab : compareKeys orders a b = .lt)
    (hbc : compareKeys orders b c = .lt) : compareKeys orders a c = .lt :=
  @Std.TransCmp.lt_trans (Keys orders) (fun a b => compareKeys orders a.1 b.1) _
    ⟨a, ha⟩ ⟨b, hb⟩ ⟨c, hc⟩ hab hbc

theorem compareKeys_lt_of_eq_of_lt (hab : compareKeys orders a b = .eq)
    (hbc : compareKeys orders b c = .lt) : compareKeys orders a c = .lt :=
  @Std.TransCmp.lt_of_eq_of_lt (Keys orders) (fun a b => compareKeys orders a.1 b.1) _
    ⟨a, ha⟩ ⟨b, hb⟩ ⟨c, hc⟩ hab hbc

theorem compareKeys_gt_trans (hab : compareKeys orders a b = .gt)
    (hbc : compareKeys orders b c = .gt) : compareKeys orders a c = .gt :=
  @Std.TransCmp.gt_trans (Keys orders) (fun a b => compareKeys orders a.1 b.1) _
    ⟨a, ha⟩ ⟨b, hb⟩ ⟨c, hc⟩ hab hbc

theorem compareKeys_gt_of_eq_of_gt (hab : compareKeys orders a b = .eq)
    (hbc : compareKeys orders b c = .gt) : compareKeys orders a c = .gt :=
  @Std.TransCmp.gt_of_eq_of_gt (Keys orders) (fun a b => compareKeys orders a.1 b.1) _
    ⟨a, ha⟩ ⟨b, hb⟩ ⟨c, hc⟩ hab hbc

end Triples

/-! ### Recorded lists -/

theorem parse_name (order : KeyOrder) : parse order.name = .ok order := by
  have : Text.trim order.name = order.name := by
    cases order <;> decide +kernel
  rw [parse, this, ofName?_name]

theorem comma_not_mem_name (order : KeyOrder) : ',' ∉ order.name.toList := by
  cases order <;> decide

theorem splitCommas_joinCommas {parts : List String} (h : ∀ s ∈ parts, ',' ∉ s.toList)
    (nonempty : parts ≠ []) : Text.splitCommas (Text.joinCommas parts) = parts := by
  rw [Text.splitCommas, Text.joinCommas, String.toList_intercalate]
  rw [show (",".toList : List Char) = [','] from rfl, List.splitOn_intercalate]
  · simp
  · intro l hl
    obtain ⟨s, hs, rfl⟩ := List.mem_map.1 hl
    exact h s hs
  · simpa using nonempty

/-- Every order takes a character at least. -/
theorem length_le_joinList (orders : List KeyOrder) :
    orders.length ≤ (joinList orders).length := by
  have named : ∀ order : KeyOrder, 1 ≤ order.name.length := by
    intro order
    cases order <;> decide
  induction orders with
  | nil => exact Nat.zero_le _
  | cons order rest ih =>
    have := named order
    cases rest with
    | nil => simpa [joinList, Text.joinCommas] using this
    | cons next rest =>
      simp only [joinList, Text.joinCommas, List.map_cons, String.intercalate_cons_cons,
        String.length_append, List.length_cons] at ih ⊢
      omega

/-- A list of orders is read back from its text. -/
theorem parseList_joinList {orders : List KeyOrder} (h : orders ≠ []) :
    parseList (joinList orders) = .ok orders := by
  rw [parseList, joinList, splitCommas_joinCommas]
  · have each : ∀ orders : List KeyOrder, (orders.map name).mapM parse = .ok orders := by
      intro orders
      induction orders with
      | nil => rfl
      | cons order orders ih =>
        rw [List.map_cons, List.mapM_cons, parse_name, ih]
        rfl
    exact each orders
  · intro s hs
    obtain ⟨order, -, rfl⟩ := List.mem_map.1 hs
    exact comma_not_mem_name order
  · simpa using h

end FlatStore.KeyOrder
