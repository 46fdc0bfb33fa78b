import FlatStore.Proofs.Contents
import FlatStore.Proofs.KeyOrder
import FlatStore.Request

/-! # Opening trees under their orders

    A command opens a tree under the orders on its line, or else under those
    recorded, or else under `lex` for each component.

    * **Recorded orders** are kept to: orders that differ from them, and keys of
      another length, are refused, and nothing is written (`run_openFor_refused`,
      `run_openFor_recorded`).
    * **Without recorded orders** the tree is opened under whatever orders there
      are, and only a command that records them writes them (`run_openFor_fresh`).
-/

namespace FlatStore.Tree

variable {ns : FileId} {orders recorded : List KeyOrder} {requested : Option (List KeyOrder)}
  {arity : Nat} {record : Bool} {c : Contents}

/-! ### Recorded orders -/

theorem run_recordedOrders_absent (h : c.read (Key.orders ns).text = .ok none) :
    (recordedOrders ns).run c = .ok none c := by
  rw [recordedOrders, Script.run_bind_ok (Script.run_get h)]
  rfl

theorem run_recordedOrders_there (some_orders : orders ≠ [])
    (h : c.read (Key.orders ns).text = .ok (some (KeyOrder.joinList orders))) :
    (recordedOrders ns).run c = .ok (some orders) c := by
  rw [recordedOrders, Script.run_bind_ok (Script.run_get h)]
  simp only [KeyOrder.parseList_joinList some_orders]
  rfl

theorem run_openRecorded_same (some_orders : orders ≠ [])
    (h : (recordedOrders ns).run c = .ok (some orders) c) :
    (openRecorded ns orders).run c = .ok ⟨ns, orders, some_orders⟩ c := by
  rw [openRecorded, dif_pos some_orders, Script.run_bind_ok h]
  simp only [ne_eq, not_true_eq_false, if_false]
  rfl

theorem run_openRecorded_first (some_orders : orders ≠ [])
    (h : (recordedOrders ns).run c = .ok none c) :
    (openRecorded ns orders).run c =
      .ok ⟨ns, orders, some_orders⟩ (c.put (Key.orders ns).text (KeyOrder.joinList orders)) := by
  rw [openRecorded, dif_pos some_orders, Script.run_bind_ok h]
  rfl

theorem run_openRecorded_other (some_orders : orders ≠ []) (differ : recorded ≠ orders)
    (h : (recordedOrders ns).run c = .ok (some recorded) c) :
    (openRecorded ns orders).run c =
      .error (.error (.orderMismatch (.different ns recorded orders))) c := by
  rw [openRecorded, dif_pos some_orders, Script.run_bind_ok h]
  simp only [ne_eq, differ, not_false_eq_true, if_true]
  rfl

/-! ### Commands -/

/-- The orders on a line, if there are any, are the recorded ones, and a key on the line has a
component for each. -/
def Suits (recorded : List KeyOrder) (requested : Option (List KeyOrder)) (arity : Nat) : Prop :=
  (∀ orders ∈ requested, orders = recorded) ∧ (arity = 0 ∨ arity = recorded.length)

/-- The orders that a line stands for where none are recorded. -/
def ordersFor (requested : Option (List KeyOrder)) (arity : Nat) : List KeyOrder :=
  requested.getD (List.replicate (max arity 1) .lex)

theorem ordersFor_sound (some_requested : ∀ orders ∈ requested, orders ≠ [])
    (fit : ∀ orders ∈ requested, 0 < arity → orders.length = arity) :
    ordersFor requested arity ≠ [] ∧ (0 < arity → (ordersFor requested arity).length = arity) := by
  cases requested with
  | none =>
    simp only [ordersFor, Option.getD_none, List.length_replicate, ne_eq, List.replicate_eq_nil_iff]
    omega
  | some orders => exact ⟨some_requested orders rfl, fit orders rfl⟩

theorem ordersFor_of_pos (requested : Option (List KeyOrder)) (positive : 0 < arity) :
    ordersFor requested arity = requested.getD (List.replicate arity .lex) := by
  rw [ordersFor, Nat.max_eq_left positive]

/-- Under orders that suit, the tree is opened under its recorded orders. -/
theorem run_openFor_recorded (some_orders : recorded ≠ []) (suits : Suits recorded requested arity)
    (h : (recordedOrders ns).run c = .ok (some recorded) c) :
    (openFor ns requested arity record).run c = .ok ⟨ns, recorded, some_orders⟩ c := by
  have chosen : (requested.or (some recorded)).getD (List.replicate (max arity 1) .lex) =
      recorded := by
    cases requested with
    | none => rfl
    | some orders => exact suits.1 orders rfl
  have fit : ¬ (arity > 0 ∧ recorded.length ≠ arity) := by
    rintro ⟨positive, differ⟩
    rcases suits.2 with none_given | same
    · omega
    · exact differ same.symm
  rw [openFor, Script.run_bind_ok h]
  simp only [chosen, if_neg fit, Option.isSome_some, Bool.or_true, if_true]
  exact run_openRecorded_same some_orders h

/-- Orders that do not suit are refused, and nothing is written. -/
theorem run_openFor_refused (some_requested : ∀ orders ∈ requested, orders ≠ [])
    (refused : ¬ Suits recorded requested arity)
    (h : (recordedOrders ns).run c = .ok (some recorded) c) :
    ∃ m, (openFor ns requested arity record).run c = .error (.error (.orderMismatch m)) c := by
  rw [openFor, Script.run_bind_ok h]
  simp only [Option.isSome_some, Bool.or_true, if_true]
  split
  · exact ⟨_, rfl⟩
  · next fit =>
    cases requested with
    | none =>
      -- Without orders on the line, the key would have had to have another length.
      refine absurd ⟨by simp, ?_⟩ refused
      simp only [Option.none_or, Option.getD_some] at fit
      omega
    | some orders =>
      simp only [Option.some_or, Option.getD_some] at fit ⊢
      have differ : recorded ≠ orders := by
        rintro rfl
        exact refused ⟨by simp, by omega⟩
      exact ⟨_, run_openRecorded_other (some_requested orders rfl) differ h⟩

/-- Opening first looks for recorded orders. Where there are none, it goes on with those that the line
stands for, which are recorded on demand. -/
theorem exists_openFor_eq (fit : 0 < arity → (ordersFor requested arity).length = arity) :
    ∃ next, openFor ns requested arity record = recordedOrders ns >>= next ∧
      next none =
        if record then openRecorded ns (ordersFor requested arity)
        else withOrders ns (ordersFor requested arity) := by
  refine ⟨_, rfl, ?_⟩
  have chosen : (requested.or none).getD (List.replicate (max arity 1) .lex) =
      ordersFor requested arity := by
    rw [Option.or_none, ordersFor]
  have fits : ¬ (arity > 0 ∧ (ordersFor requested arity).length ≠ arity) := by
    rintro ⟨positive, differ⟩
    exact differ (fit positive)
  simp only [chosen, if_neg fits, Option.isSome_none, Bool.or_false]

/-- Where no orders are recorded, the tree is opened under any orders, which are recorded on
demand. -/
theorem run_openFor_fresh (some_orders : ordersFor requested arity ≠ [])
    (fit : 0 < arity → (ordersFor requested arity).length = arity)
    (h : (recordedOrders ns).run c = .ok none c) :
    (openFor ns requested arity record).run c =
      .ok ⟨ns, ordersFor requested arity, some_orders⟩
        (if record then
          c.put (Key.orders ns).text (KeyOrder.joinList (ordersFor requested arity))
        else c) := by
  have opening : ∃ next, openFor ns requested arity record = recordedOrders ns >>= next ∧ _ :=
    exists_openFor_eq fit
  obtain ⟨next, script, fresh⟩ := opening
  rw [script, Script.run_bind_ok h, fresh]
  cases record with
  | true => exact run_openRecorded_first some_orders h
  | false =>
    simp only [Bool.false_eq_true, if_false, withOrders, dif_pos some_orders]
    rfl

end FlatStore.Tree
