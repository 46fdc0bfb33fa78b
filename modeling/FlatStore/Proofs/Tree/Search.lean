import FlatStore.Proofs.Tree.Entries

/-! # Finding a place

    The descent for a key keeps the key between the entries left behind on
    both sides (`Reached`). It ends at the node that holds the key or at a
    missing child, and either way the dictionary falls into the entries before
    and the entries behind the key (`Hit`, `Miss`).
-/

namespace FlatStore

/-- The place of a missing branch. -/
def Trail.place : Trail → Tree.Place
  | [] => .empty
  | t :: _ => .below t.fork.id t.side

namespace Tree

open KeyOrder

/-- The descent for a key has come to a branch: the entries `pre` before it are smaller than the
key, the entries `post` behind it greater. -/
structure Reached (t : Tree) (c : Contents) (tree : Branch) (d : Dictionary)
    (key : List String) (p : Trail) (b : Branch) (pre mid post : Dictionary) : Prop where
  focus : Focus c t.ns tree.ids p b
  close : p.close b = tree
  split : d = pre ++ mid ++ post
  before : Entries c t.ns p.before pre
  inside : Entries c t.ns b.ids mid
  after : Entries c t.ns p.after post
  around : Dictionary.Around t.orders key pre post

/-- A node that holds a key. -/
structure Hit (t : Tree) (c : Contents) (tree : Branch) (d : Dictionary) (key : List String)
    (p : Trail) (l : Branch) (f : Fork) (r : Branch) (pre : Dictionary)
    (e : List String × String) (post : Dictionary) : Prop where
  focus : Focus c t.ns tree.ids p (.node l f r)
  close : p.close (.node l f r) = tree
  split : d = pre ++ e :: post
  before : Entries c t.ns (p.before ++ l.ids) pre
  here : Node.Holds c t.ns f.id e
  after : Entries c t.ns (r.ids ++ p.after) post
  equal : compareKeys t.orders key e.1 = .eq
  around : Dictionary.Around t.orders key pre post

/-- A missing branch where a key that is not there belongs. -/
structure Miss (t : Tree) (c : Contents) (tree : Branch) (d : Dictionary) (key : List String)
    (p : Trail) (pre post : Dictionary) : Prop where
  focus : Focus c t.ns tree.ids p .leaf
  close : p.close .leaf = tree
  split : d = pre ++ post
  before : Entries c t.ns p.before pre
  after : Entries c t.ns p.after post
  around : Dictionary.Around t.orders key pre post

/-- What a place says about a key. -/
inductive Located (t : Tree) (c : Contents) (tree : Branch) (d : Dictionary)
    (key : List String) : Place → Prop where
  | found {p : Trail} {l : Branch} {f : Fork} {r : Branch} {pre : Dictionary}
      {e : List String × String} {post : Dictionary}
      (hit : Hit t c tree d key p l f r pre e post) : Located t c tree d key (.found f.id)
  | missing {p : Trail} {pre post : Dictionary} (miss : Miss t c tree d key p pre post) :
      Located t c tree d key p.place

variable {t : Tree} {c : Contents} {tree : Branch} {d : Dictionary} {key : List String}

/-! ### One step down -/

namespace Reached

variable {p : Trail} {l r : Branch} {f : Fork} {pre ml mr post : Dictionary}
  {e : List String × String}

theorem hit (h : Reached t c tree d key p (.node l f r) pre (ml ++ e :: mr) post)
    (sorted : d.Sorted t.orders) (arity : key.length = t.orders.length)
    (left : Entries c t.ns l.ids ml) (here : Node.Holds c t.ns f.id e)
    (right : Entries c t.ns r.ids mr) (equal : compareKeys t.orders key e.1 = .eq) :
    Hit t c tree d key p l f r (pre ++ ml) e (mr ++ post) := by
  have split : d = (pre ++ ml) ++ e :: (mr ++ post) := by rw [h.split]; simp
  have sorted' := split ▸ sorted
  exact ⟨h.focus, h.close, split, h.before.append left, here, right.append h.after, equal,
    sorted'.pre_gt arity (Or.inr equal), sorted'.lt_post arity (Or.inr equal)⟩

theorem goLeft (h : Reached t c tree d key p (.node l f r) pre (ml ++ e :: mr) post)
    (sorted : d.Sorted t.orders) (arity : key.length = t.orders.length)
    (left : Entries c t.ns l.ids ml) (here : Node.Holds c t.ns f.id e)
    (right : Entries c t.ns r.ids mr) (less : compareKeys t.orders key e.1 = .lt) :
    Reached t c tree d key (⟨.left, f, r⟩ :: p) l pre ml (e :: mr ++ post) := by
  have split : d = (pre ++ ml) ++ e :: (mr ++ post) := by rw [h.split]; simp
  -- What lies behind the node is greater than its key, and so than the one looked for.
  have beyond := (split ▸ sorted).lt_post arity (Or.inl less)
  refine ⟨Focus.cons_iff.2 h.focus, h.close, by rw [split]; simp, ?_, left, ?_, h.around.pre_lt, ?_⟩
  · rw [Trail.before, Turn.before, List.append_nil]
    exact h.before
  · exact .cons here (right.append h.after)
  · intro x hx
    rcases List.mem_cons.1 hx with rfl | hx
    · exact less
    · exact beyond x hx

theorem goRight (h : Reached t c tree d key p (.node l f r) pre (ml ++ e :: mr) post)
    (sorted : d.Sorted t.orders) (arity : key.length = t.orders.length)
    (left : Entries c t.ns l.ids ml) (here : Node.Holds c t.ns f.id e)
    (right : Entries c t.ns r.ids mr) (greater : compareKeys t.orders key e.1 = .gt) :
    Reached t c tree d key (⟨.right, f, l⟩ :: p) r (pre ++ ml ++ [e]) mr post := by
  have split : d = (pre ++ ml) ++ e :: (mr ++ post) := by rw [h.split]; simp
  -- What lies before the node is smaller than its key, and so than the one looked for.
  have beyond := (split ▸ sorted).pre_gt arity (Or.inl greater)
  refine ⟨Focus.cons_iff.2 h.focus, h.close, by rw [split]; simp, ?_, right, h.after, ?_,
    h.around.lt_post⟩
  · rw [Trail.before, Turn.before, ← List.append_assoc]
    exact (h.before.append left).append (.cons here .nil)
  · intro x hx
    rcases List.mem_append.1 hx with hx | hx
    · exact beyond x hx
    · rw [List.mem_singleton.1 hx]
      exact greater

theorem miss (h : Reached t c tree d key p .leaf pre ml post) :
    Miss t c tree d key p pre post := by
  obtain rfl := Entries.nil_iff.1 h.inside
  exact ⟨h.focus, h.close, by simpa using h.split, h.before, h.after, h.around⟩

end Reached

/-! ### The way down -/

theorem run_descend {bound : Nat} {b : Branch} {p : Trail} {pre mid post : Dictionary}
    {id : NodeId} (h : Reached t c tree d key p b pre mid post) (sorted : d.Sorted t.orders)
    (arity : key.length = t.orders.length) (link : b.link = some id)
    (enough : b.ids.length ≤ bound) :
    ∃ place, (t.descend key bound id).run c = .ok place c ∧ Located t c tree d key place := by
  induction b generalizing p pre mid post id bound with
  | leaf => cases link
  | node l f r ihl ihr =>
    cases link
    simp only [Branch.ids_node, List.length_append, List.length_cons] at enough
    -- Each step down leaves at least one node behind, so the bound is not used up.
    obtain ⟨bound, rfl⟩ : ∃ n, bound = n + 1 := ⟨bound - 1, by omega⟩
    obtain ⟨ml, rest, rfl, left, rest'⟩ := Entries.of_append h.inside
    obtain ⟨e, mr, rfl, here, right⟩ := Entries.of_cons rest'
    obtain ⟨-, -, hleft, hright, -, -⟩ := h.focus.branch
    have harity : e.1.length = t.orders.length := sorted.arity e (by rw [h.split]; simp)
    rw [descend, Script.run_bind_ok (run_compareAt here harity)]
    cases hcmp : compareKeys t.orders key e.1 with
    | eq => exact ⟨.found f.id, rfl, .found (h.hit sorted arity left here right hcmp)⟩
    | lt =>
      have down := h.goLeft sorted arity left here right hcmp
      simp only [sideOf]
      rw [Script.run_bind_ok (Node.run_child .left hleft)]
      cases l with
      | leaf => exact ⟨_, rfl, .missing down.miss⟩
      | node => exact ihl down rfl (by omega)
    | gt =>
      have down := h.goRight sorted arity left here right hcmp
      simp only [sideOf]
      rw [Script.run_bind_ok (Node.run_child .right hright)]
      cases r with
      | leaf => exact ⟨_, rfl, .missing down.miss⟩
      | node => exact ihr down rfl (by omega)

/-- The place of a key, in a tree that is stored with its entries. -/
theorem run_place (h : Focus c t.ns tree.ids [] tree) (entries : Entries c t.ns tree.ids d)
    (sorted : d.Sorted t.orders) (arity : key.length = t.orders.length)
    (small : tree.ids.length ≤ walkBound) :
    ∃ place, (t.place key).run c = .ok place c ∧ Located t c tree d key place := by
  have start : Reached t c tree d key [] tree [] d [] :=
    ⟨h, rfl, by simp, .nil, entries, .nil, by simp, by simp⟩
  rw [place, Script.run_bind_ok (run_root h.trail)]
  cases tree with
  | leaf => exact ⟨.empty, rfl, .missing start.miss⟩
  | node l f r => exact run_descend start sorted arity rfl small

end Tree

end FlatStore
