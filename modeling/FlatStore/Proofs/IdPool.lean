import FlatStore.IdPool
import FlatStore.Proofs.Contents
import Mathlib.Data.List.Range

/-! # Id pools in a store

    A pool is the stack of ids that were given back, topmost first, and the
    largest id ever issued. Fields above the top of the stack do not matter.

    The ids in use and the free ones are together exactly the numbers from one
    to the largest id issued, each once (`Covers`). Issuing an id and giving
    one back keep that.
-/

namespace FlatStore

/-- The 64-bit number in a field that has to be there. -/
def Contents.word? (c : Contents) (k : Key) : Option Nat :=
  (c.text? k).bind fun raw => (Integer.unsigned64 raw).toOption

namespace Contents

variable {c c' : Contents} {P : Key → Prop}

@[simp]
theorem word?_put {k k' : Key} (value : String) (hk : k.Local) :
    (c.put k.text value).word? k' =
      if k = k' then (Integer.unsigned64 value).toOption else c.word? k' := by
  rw [word?, text?_put value hk]
  by_cases h : k = k' <;> simp [h, word?]

theorem count?_put_self (c : Contents) {k : Key} {n : Nat} (hk : k.Local) (h : n < Word.size64) :
    (c.put k.text (toString n)).count? k = some n := by
  rw [count?_put _ hk, if_pos rfl, Integer.unsigned64_toString h]
  rfl

theorem word?_put_self (c : Contents) {k : Key} {n : Nat} (hk : k.Local) (h : n < Word.size64) :
    (c.put k.text (toString n)).word? k = some n := by
  rw [word?_put _ hk, if_pos rfl, Integer.unsigned64_toString h]
  rfl

theorem Changes.word?_eq (h : Changes P c c') {k : Key} (hk : ¬ P k) :
    c'.word? k = c.word? k := by
  rw [word?, word?, h.text?_eq hk]

end Contents

namespace IdPool

variable {c c' : Contents} {ns : FileId} {free : List NodeId} {high : Nat}

/-- The stack of free ids, topmost first, is stored. -/
def Stack (c : Contents) (ns : FileId) : List NodeId → Prop
  | [] => True
  | id :: rest => c.word? (.freeSlot ns rest.length) = some id ∧ Stack c ns rest

/-- A pool is stored. -/
structure StoredIn (c : Contents) (ns : FileId) (free : List NodeId) (high : Nat) : Prop where
  highWater : c.count? (.highWater ns) = some high
  freeCount : c.count? (.freeCount ns) = some free.length
  stack : Stack c ns free

/-- The keys of a pool. -/
def IsPool (ns : FileId) (k : Key) : Prop :=
  k = .highWater ns ∨ k = .freeCount ns ∨ ∃ slot, k = .freeSlot ns slot

@[simp]
theorem not_isPool_node (ns ns' : FileId) (id : NodeId) (f : NodeField) :
    ¬ IsPool ns (.node ns' id f) := by simp [IsPool]

@[simp]
theorem not_isPool_root (ns ns' : FileId) : ¬ IsPool ns (.root ns') := by simp [IsPool]

@[simp]
theorem not_isPool_size (ns ns' : FileId) : ¬ IsPool ns (.size ns') := by simp [IsPool]

/-- The ids in use and the free ones are the numbers from one to the largest id, each once. -/
def Covers (used free : List NodeId) (high : Nat) : Prop :=
  (used ++ free).Perm (List.range' 1 high)

theorem Stack.frame {P : Key → Prop} (h : Stack c ns free) (hc : Contents.Changes P c c')
    (hP : ∀ slot < free.length, ¬ P (.freeSlot ns slot)) : Stack c' ns free := by
  induction free with
  | nil => trivial
  | cons id rest ih =>
    obtain ⟨top, below⟩ := h
    refine ⟨?_, ih below fun slot hslot => hP slot (by simp; omega)⟩
    rw [hc.word?_eq (hP rest.length (by simp)), top]

/-- Writes outside of the pool keep it. -/
theorem StoredIn.frame {P : Key → Prop} (h : StoredIn c ns free high)
    (hc : Contents.Changes P c c') (hP : ∀ k, P k → ¬ IsPool ns k) : StoredIn c' ns free high := by
  refine ⟨?_, ?_, h.stack.frame hc fun slot _ hk => hP _ hk (Or.inr (Or.inr ⟨slot, rfl⟩))⟩
  · rw [hc.count?_eq fun hk => hP _ hk (Or.inl rfl), h.highWater]
  · rw [hc.count?_eq fun hk => hP _ hk (Or.inr (Or.inl rfl)), h.freeCount]

/-- A slot above the top of the stack can be written. -/
theorem StoredIn.put_above (h : StoredIn c ns free high) {slot : Nat} (above : free.length ≤ slot)
    (value : String) : StoredIn (c.put (Key.freeSlot ns slot).text value) ns free high := by
  have changes : Contents.Changes (· = .freeSlot ns slot) c
      (c.put (Key.freeSlot ns slot).text value) := .single c _ _
  refine ⟨?_, ?_, h.stack.frame changes ?_⟩
  · rw [changes.count?_eq (by simp), h.highWater]
  · rw [changes.count?_eq (by simp), h.freeCount]
  · intro below hslot he
    have := (Key.freeSlot.inj he).2
    omega

/-! ### Issuing an id -/

/-- Which id is issued: the top of the stack, or else the next fresh one. -/
inductive Issued : (free : List NodeId) → (high : Nat) → NodeId → List NodeId → Nat → Prop where
  | recycled (id : NodeId) (rest : List NodeId) (high : Nat) : Issued (id :: rest) high id rest high
  | fresh (high : Nat) : Issued [] high (high + 1) [] (high + 1)

theorem Issued.high_le {id : NodeId} {free' : List NodeId} {high' : Nat}
    (h : Issued free high id free' high') : high' ≤ high + 1 := by
  cases h <;> omega

/-- An id that is issued was not in use, and is the only one to come into use. -/
theorem Issued.covers {used : List NodeId} {id : NodeId} {free' : List NodeId} {high' : Nat}
    (h : Issued free high id free' high') (covers : Covers used free high) :
    Covers (id :: used) free' high' := by
  unfold Covers at *
  cases h with
  | recycled => exact List.perm_middle.symm.trans covers
  | fresh =>
    rw [List.append_nil] at *
    rw [List.range'_1_concat, Nat.add_comm 1 high]
    exact (List.Perm.cons _ covers).trans (List.perm_append_singleton _ _).symm

theorem Covers.nodup {used : List NodeId} (h : Covers used free high) : (used ++ free).Nodup :=
  h.nodup_iff.2 List.nodup_range'

theorem Covers.mem_iff {used : List NodeId} (h : Covers used free high) (id : NodeId) :
    id ∈ used ++ free ↔ 1 ≤ id ∧ id ≤ high := by
  rw [List.Perm.mem_iff h, List.mem_range'_1, Nat.add_comm, Nat.lt_succ_iff]

theorem Covers.length {used : List NodeId} (h : Covers used free high) :
    used.length + free.length = high := by
  have := h.length_eq
  simpa using this

/-- Giving an id back. -/
theorem Covers.release {used used' : List NodeId} {id : NodeId} (h : Covers used free high)
    (taken : used.Perm (id :: used')) : Covers used' (id :: free) high :=
  List.perm_middle.trans ((taken.symm.append_right free).trans h)

/-- Without free ids, the next number is issued. -/
theorem run_allocate_fresh (h : StoredIn c ns [] high) (room : high + 1 < Word.size64) :
    ∃ c', (allocate ns).run c = .ok (high + 1) c' ∧ StoredIn c' ns [] (high + 1) ∧
      Contents.Changes (IsPool ns) c c' := by
  have start : (freeCount ns).run c = .ok 0 c := Script.run_count h.freeCount
  have water : (highWater ns).run c = .ok high c := Script.run_count h.highWater
  refine ⟨c.put (Key.highWater ns).text (toString (high + 1)), ?_, ⟨?_, ?_, trivial⟩,
    (Contents.Changes.refl _ c).put (Or.inl rfl) _⟩
  · rw [allocate, Script.run_bind_ok start]
    simp only
    rw [Script.run_bind_ok water, Script.run_bind_ok (Script.run_successor c room)]
    rfl
  · exact Contents.count?_put_self c (by simp) room
  · simpa using h.freeCount

/-- The id on top of the stack is issued again. -/
theorem run_allocate_recycled {id : NodeId} {rest : List NodeId}
    (h : StoredIn c ns (id :: rest) high) (small : rest.length < Word.size64) :
    ∃ c', (allocate ns).run c = .ok id c' ∧ StoredIn c' ns rest high ∧
      Contents.Changes (IsPool ns) c c' := by
  have start : (freeCount ns).run c = .ok (rest.length + 1) c := Script.run_count h.freeCount
  obtain ⟨top, below⟩ := h.stack
  obtain ⟨raw, hraw, parsed⟩ := Option.bind_eq_some_iff.1 top
  have value : (Script.getParsed Integer.unsigned64 (Key.freeSlot ns rest.length).text).run c =
      .ok (some id) c := by
    cases hp : Integer.unsigned64 raw with
    | error fault => rw [hp] at parsed; cases parsed
    | ok n =>
      rw [hp] at parsed
      cases parsed
      exact Script.run_getParsed_text hraw hp
  set c' := c.put (Key.freeCount ns).text (toString rest.length) with hc'
  have changes : Contents.Changes (· = .freeCount ns) c c' := .single c _ _
  -- Only the count goes down: the slot of the issued id stays as it is.
  refine ⟨c', ?_, ⟨?_, ?_, below.frame changes (by simp)⟩,
    changes.mono fun _ hk => Or.inr (Or.inl hk)⟩
  · rw [allocate, Script.run_bind_ok start]
    simp only
    rw [Script.run_bind_ok value]
    rfl
  · rw [changes.count?_eq (by simp), h.highWater]
  · exact Contents.count?_put_self c (by simp) small

theorem run_allocate (h : StoredIn c ns free high) (small : free.length < Word.size64)
    (room : high + 1 < Word.size64) :
    ∃ id free' high' c', (allocate ns).run c = .ok id c' ∧ Issued free high id free' high' ∧
      StoredIn c' ns free' high' ∧ Contents.Changes (IsPool ns) c c' := by
  cases free with
  | nil =>
    obtain ⟨c', run, stored, changes⟩ := run_allocate_fresh h room
    exact ⟨high + 1, [], high + 1, c', run, .fresh high, stored, changes⟩
  | cons id rest =>
    rw [List.length_cons] at small
    obtain ⟨c', run, stored, changes⟩ := run_allocate_recycled h (by omega)
    exact ⟨id, rest, high, c', run, .recycled id rest high, stored, changes⟩

/-! ### Giving an id back -/

theorem run_free {id : NodeId} (h : StoredIn c ns free high) (fits : id < Word.size64)
    (room : free.length + 1 < Word.size64) :
    ∃ c', (IdPool.free ns id).run c = .ok () c' ∧ StoredIn c' ns (id :: free) high ∧
      Contents.Changes (IsPool ns) c c' := by
  have start : (freeCount ns).run c = .ok free.length c := Script.run_count h.freeCount
  set c₁ := c.put (Key.freeSlot ns free.length).text (toString id) with hc₁
  have stored₁ : StoredIn c₁ ns free high := h.put_above (Nat.le_refl _) _
  have changes₁ : Contents.Changes (· = .freeSlot ns free.length) c c₁ :=
    .single c _ _
  have changes₂ : Contents.Changes (· = .freeCount ns) c₁
      (c₁.put (Key.freeCount ns).text (toString (free.length + 1))) :=
    .single c₁ _ _
  refine ⟨_, ?_, ⟨?_, ?_, ?_, stored₁.stack.frame changes₂ (by simp)⟩,
    (changes₁.mono ?_).trans (changes₂.mono ?_)⟩
  · rw [IdPool.free, Script.run_bind_ok start, Script.run_bind_ok (Script.run_put _ _ c),
      Script.run_bind_ok (Script.run_successor _ room)]
    rfl
  · rw [changes₂.count?_eq (by simp), stored₁.highWater]
  · exact Contents.count?_put_self c₁ (by simp) room
  · rw [changes₂.word?_eq (by simp)]
    exact Contents.word?_put_self c (by simp) fits
  · exact fun k hk => Or.inr (Or.inr ⟨_, hk⟩)
  · exact fun k hk => Or.inr (Or.inl hk)

end IdPool

end FlatStore
