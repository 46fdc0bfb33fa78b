import FlatStore.Proofs.Dictionary
import FlatStore.Proofs.Tree.Layout
import Mathlib.Data.List.Forall2

/-! # Entries in a store

    Beside its place in the tree, a node holds an entry: the components of a
    key and a payload, each in a field of its own. The nodes of a tree hold the
    entries of a dictionary, in the same order.

    * `run_compareAt` compares a key with the key of a node.
    * `run_copyEntry` moves an entry to another node, `run_create` makes a
      leaf that holds one.
-/

namespace FlatStore

open KeyOrder

/-- A node holds an entry. -/
structure Node.Holds (c : Contents) (ns : FileId) (id : NodeId) (e : List String × String) :
    Prop where
  component : ∀ i (h : i < e.1.length), c.text? (.node ns id (.component i)) = some e.1[i]
  data : c.text? (.node ns id .data) = some e.2

namespace Node

variable {c c' : Contents} {ns : FileId} {id : NodeId} {e : List String × String}
  {P : Key → Prop}

/-- Writes that leave its key components and its payload alone keep the entry of a node. -/
theorem Holds.frame (h : Holds c ns id e) (hc : Contents.Changes P c c')
    (hP : ∀ f : NodeField, ¬ f.IsShape → ¬ P (.node ns id f)) : Holds c' ns id e := by
  constructor
  · intro i hi
    rw [hc.text?_eq (hP (.component i) (by simp [NodeField.IsShape])), h.component i hi]
  · rw [hc.text?_eq (hP .data (by simp [NodeField.IsShape])), h.data]

/-- No component of the key of a node was changed, nor its payload. -/
def KeepsEntry (ns : FileId) (id : NodeId) (c c' : Contents) : Prop :=
  ∀ f : NodeField, ¬ f.IsShape →
    c' (Key.node ns id f).text.toUTF8 = c (Key.node ns id f).text.toUTF8

theorem KeepsEntry.refl (ns : FileId) (id : NodeId) (c : Contents) : KeepsEntry ns id c c :=
  fun _ _ => rfl

theorem KeepsEntry.trans {c'' : Contents} (h : KeepsEntry ns id c c')
    (h' : KeepsEntry ns id c' c'') : KeepsEntry ns id c c'' :=
  fun f hf => (h' f hf).trans (h f hf)

theorem keepsEntry_of_changes (hc : Contents.Changes P c c')
    (hP : ∀ f : NodeField, ¬ f.IsShape → ¬ P (.node ns id f)) : KeepsEntry ns id c c' :=
  fun f hf => hc _ (hP f hf)

theorem KeepsEntry.holds (h : KeepsEntry ns id c c') (holds : Holds c ns id e) :
    Holds c' ns id e := by
  refine holds.frame (P := fun k => ∀ f : NodeField, ¬ f.IsShape → k ≠ .node ns id f) ?_ ?_
  · intro k hk
    obtain ⟨f, hf, rfl⟩ : ∃ f : NodeField, ¬ f.IsShape ∧ k = .node ns id f := by
      simpa using hk
    exact h f hf
  · intro f hf apart
    exact apart f hf rfl

/-! ### Reading an entry -/

theorem run_component (h : Holds c ns id e) {i : Nat} (hi : i < e.1.length) :
    (component ns id i).run c = .ok e.1[i] c :=
  run_read (h.component i hi)

theorem run_data (h : Holds c ns id e) : (data ns id).run c = .ok e.2 c :=
  run_read h.data

/-- Steps that leave the contents as they are, one for each member of a list. -/
theorem run_mapM {α β : Type} {f : α → Script β} {g : α → β} {xs : List α}
    (h : ∀ x ∈ xs, (f x).run c = .ok (g x) c) : (xs.mapM f).run c = .ok (xs.map g) c := by
  induction xs with
  | nil => rfl
  | cons x xs ih =>
    rw [List.mapM_cons, Script.run_bind_ok (h x (by simp)),
      Script.run_bind_ok (ih fun y hy => h y (List.mem_cons_of_mem _ hy))]
    rfl

/-- The whole key of a node. -/
theorem run_key (h : Holds c ns id e) : (key ns id e.1.length).run c = .ok e.1 c := by
  have values : (List.range e.1.length).map (fun i => e.1.getD i "") = e.1 := by
    apply List.ext_getElem (by simp)
    intro i hi hi'
    simp [List.getElem?_eq_getElem hi']
  rw [key, run_mapM (g := fun i => e.1.getD i ""), values]
  intro i hi
  have hi := List.mem_range.1 hi
  rw [run_component h hi]
  simp [List.getElem?_eq_getElem hi]

/-! ### Writing an entry -/

/-- The keys of the entry of a node. -/
def IsEntry (ns : FileId) (id : NodeId) (k : Key) : Prop :=
  ∃ f : NodeField, ¬ f.IsShape ∧ k = .node ns id f

/-- The keys of a node. -/
def IsField (ns : FileId) (id : NodeId) (k : Key) : Prop := ∃ f : NodeField, k = .node ns id f

theorem not_isShape_component (i : Nat) : ¬ (NodeField.component i).IsShape := by
  simp [NodeField.IsShape]

theorem not_isShape_data : ¬ NodeField.data.IsShape := by simp [NodeField.IsShape]

theorem not_isEntry_of_ne {target : NodeId} (ne : id ≠ target) (f : NodeField) :
    ¬ IsEntry ns target (.node ns id f) := by
  rintro ⟨g, -, he⟩
  exact ne (Key.node.inj he).2.1

/-- Writing the entry of another node leaves that of a node as it is. -/
theorem Holds.frame_entry {c' : Contents} {target : NodeId} (h : Holds c ns id e)
    (hc : Contents.Changes (IsEntry ns target) c c') (ne : id ≠ target) : Holds c' ns id e :=
  h.frame hc fun f _ => not_isEntry_of_ne ne f

/-- Another payload leaves the key as it is. -/
theorem Holds.put_data (h : Holds c ns id e) (value : String) :
    Holds (c.put (Key.node ns id .data).text value) ns id (e.1, value) := by
  constructor
  · intro i hi
    simpa using h.component i hi
  · simp

/-- Key components are written one after the other. -/
theorem run_writeComponents (c : Contents) (ns : FileId) (id : NodeId) (i : Nat)
    (texts : List String) :
    ∃ c', (writeComponents ns id i texts).run c = .ok () c' ∧
      (∀ j (h : j < texts.length), c'.text? (.node ns id (.component (i + j))) = some texts[j]) ∧
      Contents.Changes (fun k => ∃ j, i ≤ j ∧ k = .node ns id (.component j)) c c' := by
  induction texts generalizing c i with
  | nil => exact ⟨c, rfl, fun j hj => absurd hj (by simp), .refl _ c⟩
  | cons text texts ih =>
    obtain ⟨c', run, written, changes⟩ :=
      ih (c.put (Key.node ns id (.component i)).text text) (i + 1)
    refine ⟨c', ?_, ?_, ?_⟩
    · rw [writeComponents, Script.run_bind_ok (run_write _ _), run]
    · intro j hj
      cases j with
      | zero =>
        -- What is written behind position `i` leaves it alone.
        rw [changes.text?_eq (by simp)]
        simp
      | succ j =>
        have := written j (by simpa using hj)
        rwa [show i + 1 + j = i + (j + 1) by omega] at this
    · have wider := changes.mono (Q := fun k => ∃ j, i ≤ j ∧ k = .node ns id (.component j))
        fun k ⟨j, hj, hk⟩ => ⟨j, by omega, hk⟩
      exact .trans ((Contents.Changes.refl _ c).put ⟨i, le_refl i, rfl⟩ text) wider

/-- Components are copied one after the other; those that are right already stay right. -/
theorem run_copyComponents {source target : NodeId} (h : Holds c ns source e)
    (ne : source ≠ target) (positions : List Nat) (small : ∀ i ∈ positions, i < e.1.length) :
    ∃ c', (positions.forM fun i => do
        write ns target (.component i) (← component ns source i)).run c = .ok () c' ∧
      (∀ i (hi : i < e.1.length),
        i ∈ positions ∨ c.text? (.node ns target (.component i)) = some e.1[i] →
        c'.text? (.node ns target (.component i)) = some e.1[i]) ∧
      Contents.Changes (IsEntry ns target) c c' := by
  induction positions generalizing c with
  | nil => exact ⟨c, rfl, fun i hi h => by simpa using h, .refl _ c⟩
  | cons i positions ih =>
    have hi := small i (by simp)
    set c₁ := c.put (Key.node ns target (.component i)).text e.1[i] with hc₁
    have changes₁ : Contents.Changes (IsEntry ns target) c c₁ :=
      (Contents.Changes.refl _ c).put ⟨_, not_isShape_component i, rfl⟩ _
    have h₁ := h.frame_entry changes₁ ne
    obtain ⟨c₂, run₂, right, changes₂⟩ := ih h₁ fun j hj => small j (by simp [hj])
    refine ⟨c₂, ?_, ?_, changes₁.trans changes₂⟩
    · have first : (do write ns target (.component i) (← component ns source i) :
          Script Unit).run c = .ok () c₁ := by
        rw [Script.run_bind_ok (run_component h hi), run_write]
      rw [List.forM, Script.run_bind_ok first, run₂]
    · intro j hj hdone
      apply right j hj
      by_cases same : j = i
      · -- This one was copied just now, and the rest of the walk keeps it.
        subst same
        exact Or.inr (by simp [hc₁])
      · rcases hdone with hdone | hdone
        · exact Or.inl (by simpa [same] using hdone)
        · exact Or.inr (by simpa [hc₁, Ne.symm same] using hdone)

/-- An entry is copied onto another node. -/
theorem run_copyEntry {source target : NodeId} (h : Holds c ns source e) (ne : source ≠ target) :
    ∃ c', (copyEntry ns source target e.1.length).run c = .ok () c' ∧
      Holds c' ns target e ∧ Contents.Changes (IsEntry ns target) c c' := by
  obtain ⟨c₁, run₁, components, changes₁⟩ :=
    run_copyComponents h ne (List.range e.1.length) fun i hi => List.mem_range.1 hi
  have h₁ := h.frame_entry changes₁ ne
  refine ⟨c₁.put (Key.node ns target .data).text e.2, ?_, ⟨?_, by simp⟩, ?_⟩
  · rw [copyEntry, Script.run_bind_ok run₁, Script.run_bind_ok (run_data h₁)]
    rfl
  · intro i hi
    simpa using components i hi (Or.inl (List.mem_range.2 hi))
  · exact changes₁.put ⟨_, not_isShape_data, rfl⟩ _

/-- A fresh leaf has its place below `parent` and holds its entry. -/
theorem run_create (c : Contents) (ns : FileId) (key : List String) (value : String) {parent : Link}
    (fits : id < Word.size64) (hparent : parent.Fits) :
    ∃ c', (create ns id key value parent).run c = .ok () c' ∧
      (Branch.node .leaf ⟨id, 0, 0⟩ .leaf).StoredIn c' ns parent ∧
      Holds c' ns id (key, value) ∧
      Contents.Changes (IsField ns id) c c' := by
  set c₁ := (((((c.put (Key.node ns id .height).text "0").put (Key.node ns id .balance).text
    "0").put (Key.node ns id .data).text value).put (Key.node ns id .left).text
    (Link.text none)).put (Key.node ns id .right).text (Link.text none)).put
    (Key.node ns id .parent).text parent.text with hc₁
  -- The components are written last and leave the other fields alone.
  obtain ⟨c₂, run, components, changes⟩ := run_writeComponents c₁ ns id 0 key
  have own : ∀ f, IsField ns id (.node ns id f) := fun f => ⟨f, rfl⟩
  have changes₁ : Contents.Changes (IsField ns id) c c₁ :=
    ((((((Contents.Changes.refl _ c).put (own .height) _).put (own .balance) _).put
      (own .data) _).put (own .left) _).put (own .right) _).put (own .parent) _
  refine ⟨c₂, run, ⟨⟨fits, ?_, ?_⟩, ?_, ?_, ?_, trivial, trivial⟩, ⟨?_, ?_⟩, ?_⟩
  · rw [changes.number?_eq (by simp)]
    simp [hc₁]
    rfl
  · rw [changes.number?_eq (by simp)]
    simp [hc₁]
    rfl
  · rw [changes.link?_eq (by simp)]
    simp [hc₁, Link.parse?_text hparent]
  · rw [changes.link?_eq (by simp)]
    simp [hc₁, Link.parse?_text Link.fits_none]
  · rw [changes.link?_eq (by simp)]
    simp [hc₁, Link.parse?_text Link.fits_none]
  · intro i hi
    simpa using components i hi
  · rw [changes.text?_eq (by simp)]
    simp [hc₁]
  · exact changes₁.trans (changes.mono fun k ⟨j, _, hk⟩ => ⟨_, hk⟩)

end Node

namespace Tree

variable {c c' : Contents} {ns : FileId} {id : NodeId}

/-- A key is compared with the stored components from position `i` on. -/
theorem run_compareFrom {i : Nat} {orders : List KeyOrder} {texts stored : List String}
    (hs : stored.length = orders.length)
    (h : ∀ j (hj : j < stored.length),
      c.text? (.node ns id (.component (i + j))) = some stored[j]) :
    (compareFrom ns id i orders texts).run c = .ok (compareKeys orders texts stored) c := by
  induction orders generalizing i texts stored with
  | nil => rfl
  | cons order orders ih =>
    cases texts with
    | nil => rfl
    | cons text texts =>
      cases stored with
      | nil => cases hs
      | cons first stored =>
        have here : (Node.component ns id i).run c = .ok first c := Node.run_read (h 0 (by simp))
        rw [compareFrom, Script.run_bind_ok here, compareKeys]
        cases hcmp : order.compareComponents text first with
        | lt => simp
        | gt => simp
        | eq =>
          -- The rest of the key stands one position further on.
          simp only [Ordering.eq_then]
          refine ih (by simpa using hs) ?_
          intro j hj
          have := h (j + 1) (by simpa using hj)
          rwa [List.getElem_cons_succ, show i + (j + 1) = i + 1 + j by omega] at this

theorem run_compareAt {t : Tree} {key : List String} {e : List String × String}
    (h : Node.Holds c t.ns id e) (arity : e.1.length = t.orders.length) :
    (t.compareAt key id).run c = .ok (compareKeys t.orders key e.1) c :=
  run_compareFrom arity fun j hj => by simpa using h.component j hj

/-! ### The entries of a list of nodes -/

/-- Two lists that are related member by member are cut at the same place. -/
theorem forall₂_of_append {α β : Type} {R : α → β → Prop} {xs ys : List α} {zs : List β}
    (h : List.Forall₂ R (xs ++ ys) zs) :
    ∃ zs₁ zs₂, zs = zs₁ ++ zs₂ ∧ List.Forall₂ R xs zs₁ ∧ List.Forall₂ R ys zs₂ := by
  induction xs generalizing zs with
  | nil => exact ⟨[], zs, rfl, .nil, h⟩
  | cons x xs ih =>
    cases h with
    | cons here rest =>
      obtain ⟨zs₁, zs₂, rfl, before, after⟩ := ih rest
      exact ⟨_ :: zs₁, zs₂, rfl, .cons here before, after⟩

/-- The nodes hold the entries, in this order. -/
def Entries (c : Contents) (ns : FileId) (ids : List NodeId) (d : Dictionary) : Prop :=
  List.Forall₂ (Node.Holds c ns) ids d

namespace Entries

variable {ids ids' : List NodeId} {d d' : Dictionary} {e : List String × String}

theorem append (h : Entries c ns ids d) (h' : Entries c ns ids' d') :
    Entries c ns (ids ++ ids') (d ++ d') :=
  List.rel_append h h'

theorem of_append (h : Entries c ns (ids ++ ids') d) :
    ∃ d₁ d₂, d = d₁ ++ d₂ ∧ Entries c ns ids d₁ ∧ Entries c ns ids' d₂ :=
  forall₂_of_append h

theorem of_cons (h : Entries c ns (id :: ids) d) :
    ∃ e d', d = e :: d' ∧ Node.Holds c ns id e ∧ Entries c ns ids d' := by
  cases h with
  | cons here rest => exact ⟨_, _, rfl, here, rest⟩

theorem nil_iff : Entries c ns [] d ↔ d = [] := List.forall₂_nil_left_iff

theorem length_eq (h : Entries c ns ids d) : ids.length = d.length := List.Forall₂.length_eq h

/-- What holds of every node and its entry. -/
theorem forall₂ {R : NodeId → List String × String → Prop} (h : Entries c ns ids d)
    (hR : ∀ id, ∀ e ∈ d, Node.Holds c ns id e → R id e) : List.Forall₂ R ids d := by
  induction h with
  | nil => exact .nil
  | cons here _ ih =>
    exact .cons (hR _ _ (by simp) here) (ih fun id e he => hR id e (by simp [he]))

/-- Writes elsewhere keep the entries. -/
theorem frame {P : Key → Prop} (h : Entries c ns ids d) (hc : Contents.Changes P c c')
    (hP : ∀ id ∈ ids, ∀ f : NodeField, ¬ f.IsShape → ¬ P (.node ns id f)) :
    Entries c' ns ids d := by
  induction h with
  | nil => exact .nil
  | cons here _ ih =>
    exact .cons (here.frame hc (hP _ (by simp))) (ih fun id hid => hP id (by simp [hid]))

end Entries

end Tree

end FlatStore
