import FlatStore.Proofs.KeyOrder

/-! # Ordered dictionaries

    What a tree stands for: entries in increasing order of their keys, where
    keys that compare equal are one key. Entering a key that is there keeps
    the key as it was first written and replaces the payload; removing a key
    takes out just its entry.

    A place between smaller and greater keys settles every operation
    (`Around`), wherever it was found.
-/

namespace FlatStore

/-- Keys with their payloads. -/
abbrev Dictionary := List (List String × String)

namespace Dictionary

variable (orders : List KeyOrder)

/-- Whether an entry is that of a key. -/
def isAt (key : List String) (e : List String × String) : Bool :=
  KeyOrder.compareKeys orders key e.1 == .eq

/-- Enter a key with its payload; a key that is there only gets the new payload. -/
def insert (key : List String) (value : String) : Dictionary → Dictionary
  | [] => [(key, value)]
  | e :: rest =>
    match KeyOrder.compareKeys orders key e.1 with
    | .lt => (key, value) :: e :: rest
    | .eq => (e.1, value) :: rest
    | .gt => e :: insert key value rest

/-- Take out the entry of a key. -/
def erase (key : List String) (d : Dictionary) : Dictionary :=
  d.filter fun e => !isAt orders key e

/-- The payload of a key. -/
def get? (key : List String) (d : Dictionary) : Option String :=
  (d.find? (isAt orders key)).map Prod.snd

/-- Whether a key is there. -/
def contains (key : List String) (d : Dictionary) : Bool := d.any (isAt orders key)

/-- The keys strictly increase, and have one component for each order. -/
structure Sorted (d : Dictionary) : Prop where
  arity : ∀ e ∈ d, e.1.length = orders.length
  increasing : d.Pairwise fun a b => KeyOrder.compareKeys orders a.1 b.1 = .lt

/-- A key lies behind the entries `pre` and before the entries `post`. -/
structure Around (key : List String) (pre post : Dictionary) : Prop where
  pre_lt : ∀ e ∈ pre, KeyOrder.compareKeys orders key e.1 = .gt
  lt_post : ∀ e ∈ post, KeyOrder.compareKeys orders key e.1 = .lt

variable {orders} {key : List String} {pre post : Dictionary} {e : List String × String}

/-- Taking out a key that is not there changes nothing. -/
theorem erase_of_not_contains {d : Dictionary} (h : contains orders key d = false) :
    erase orders key d = d := by
  rw [contains, List.any_eq_false] at h
  rw [erase, List.filter_eq_self]
  intro e he
  simpa using h e he

namespace Around

variable (h : Around orders key pre post)
include h

theorem not_isAt_pre : ∀ e ∈ pre, isAt orders key e = false := by
  intro e he
  rw [isAt, h.pre_lt e he]
  rfl

theorem not_isAt_post : ∀ e ∈ post, isAt orders key e = false := by
  intro e he
  rw [isAt, h.lt_post e he]
  rfl

/-! ### A key that is not there -/

theorem insert_new (value : String) :
    insert orders key value (pre ++ post) = pre ++ (key, value) :: post := by
  obtain ⟨hpre, hpost⟩ := h
  induction pre with
  | nil =>
    cases post with
    | nil => rfl
    | cons e rest => simp [insert, hpost e (by simp)]
  | cons e pre ih =>
    have := ih fun e he => hpre e (List.mem_cons_of_mem _ he)
    simp [insert, hpre e (by simp), this]

theorem get?_absent : get? orders key (pre ++ post) = none := by
  rw [get?, Option.map_eq_none_iff, List.find?_eq_none]
  intro e he
  rcases List.mem_append.1 he with he | he
  · simp [h.not_isAt_pre e he]
  · simp [h.not_isAt_post e he]

theorem contains_absent : contains orders key (pre ++ post) = false := by
  rw [contains, List.any_eq_false]
  intro e he
  rcases List.mem_append.1 he with he | he
  · simp [h.not_isAt_pre e he]
  · simp [h.not_isAt_post e he]

theorem erase_absent : erase orders key (pre ++ post) = pre ++ post :=
  erase_of_not_contains h.contains_absent

/-! ### A key that is there -/

variable (he : KeyOrder.compareKeys orders key e.1 = .eq)
include he

theorem insert_found (value : String) :
    insert orders key value (pre ++ e :: post) = pre ++ (e.1, value) :: post := by
  obtain ⟨hpre, -⟩ := h
  induction pre with
  | nil => simp [insert, he]
  | cons e' pre ih =>
    have := ih fun e he => hpre e (List.mem_cons_of_mem _ he)
    simp [insert, hpre e' (by simp), this]

theorem erase_found : erase orders key (pre ++ e :: post) = pre ++ post := by
  have here : isAt orders key e = true := by rw [isAt, he]; rfl
  have absent := h.erase_absent
  rw [erase, List.filter_append] at absent ⊢
  rw [List.filter_cons, here]
  exact absent

theorem get?_found : get? orders key (pre ++ e :: post) = some e.2 := by
  have here : isAt orders key e = true := by rw [isAt, he]; rfl
  have before : pre.find? (isAt orders key) = none := by
    rw [List.find?_eq_none]
    intro e he
    simp [h.not_isAt_pre e he]
  simp [get?, List.find?_append, before, here]

omit h in
theorem contains_found : contains orders key (pre ++ e :: post) = true := by
  have here : isAt orders key e = true := by rw [isAt, he]; rfl
  simp [contains, here]

end Around

/-! ### Sorted dictionaries -/

theorem sorted_nil : Sorted orders [] := ⟨by simp, .nil⟩

theorem Sorted.sublist {d d' : Dictionary} (h : Sorted orders d) (sub : d'.Sublist d) :
    Sorted orders d' :=
  ⟨fun e he => h.arity e (sub.subset he), h.increasing.sublist sub⟩

theorem Sorted.insert_between (h : Sorted orders (pre ++ post))
    (around : Around orders key pre post) (arity : key.length = orders.length) (value : String) :
    Sorted orders (pre ++ (key, value) :: post) := by
  obtain ⟨hpre, hpost, apart⟩ := List.pairwise_append.1 h.increasing
  constructor
  · intro e he
    rcases List.mem_append.1 he with he | he
    · exact h.arity e (List.mem_append_left _ he)
    · rcases List.mem_cons.1 he with rfl | he
      · exact arity
      · exact h.arity e (List.mem_append_right _ he)
  · -- The new key is smaller than all behind it, and all before it are smaller than the new key.
    refine List.pairwise_append.2 ⟨hpre, List.pairwise_cons.2 ⟨around.lt_post, hpost⟩, ?_⟩
    intro a ha b hb
    rcases List.mem_cons.1 hb with rfl | hb
    · rw [KeyOrder.compareKeys_swap, around.pre_lt a ha]
      rfl
    · exact apart a ha b hb

/-- Another payload under the same key keeps the order. -/
theorem Sorted.replace (h : Sorted orders (pre ++ e :: post)) (value : String) :
    Sorted orders (pre ++ (e.1, value) :: post) := by
  obtain ⟨hpre, hpost, apart⟩ := List.pairwise_append.1 h.increasing
  constructor
  · intro e' he'
    rcases List.mem_append.1 he' with he' | he'
    · exact h.arity e' (List.mem_append_left _ he')
    · rcases List.mem_cons.1 he' with rfl | he'
      · exact h.arity e (by simp)
      · exact h.arity e' (by simp [he'])
  · refine List.pairwise_append.2 ⟨hpre, List.pairwise_cons.2 (List.pairwise_cons.1 hpost), ?_⟩
    intro a ha b hb
    rcases List.mem_cons.1 hb with rfl | hb
    · exact apart a ha e (by simp)
    · exact apart a ha b (by simp [hb])

/-- An entry of a sorted dictionary lies between the others. -/
theorem Sorted.around (h : Sorted orders (pre ++ e :: post)) : Around orders e.1 pre post := by
  obtain ⟨-, hpost, apart⟩ := List.pairwise_append.1 h.increasing
  constructor
  · intro a ha
    rw [KeyOrder.compareKeys_swap, apart a ha e (by simp)]
    rfl
  · exact (List.pairwise_cons.1 hpost).1

section Compared

variable (h : Sorted orders (pre ++ e :: post)) (arity : key.length = orders.length)
include h arity

/-- A key that is not greater than an entry is smaller than all behind it. -/
theorem Sorted.lt_post (le : KeyOrder.compareKeys orders key e.1 = .lt ∨
    KeyOrder.compareKeys orders key e.1 = .eq) :
    ∀ x ∈ post, KeyOrder.compareKeys orders key x.1 = .lt := by
  intro x hx
  have he := h.arity e (by simp)
  have hx' := h.arity x (by simp [hx])
  rcases le with le | le
  · exact KeyOrder.compareKeys_lt_trans arity he hx' le (h.around.lt_post x hx)
  · exact KeyOrder.compareKeys_lt_of_eq_of_lt arity he hx' le (h.around.lt_post x hx)

/-- A key that is not smaller than an entry is greater than all before it. -/
theorem Sorted.pre_gt (ge : KeyOrder.compareKeys orders key e.1 = .gt ∨
    KeyOrder.compareKeys orders key e.1 = .eq) :
    ∀ x ∈ pre, KeyOrder.compareKeys orders key x.1 = .gt := by
  intro x hx
  have he := h.arity e (by simp)
  have hx' := h.arity x (by simp [hx])
  rcases ge with ge | ge
  · exact KeyOrder.compareKeys_gt_trans arity he hx' ge (h.around.pre_lt x hx)
  · exact KeyOrder.compareKeys_gt_of_eq_of_gt arity he hx' ge (h.around.pre_lt x hx)

end Compared

/-! ### Laws of the dictionary -/

/-- Every key has its place in a sorted dictionary: at one of the entries, or between two parts. -/
theorem Sorted.locate {d : Dictionary} (h : Sorted orders d) (arity : key.length = orders.length) :
    (∃ pre e post, d = pre ++ e :: post ∧ KeyOrder.compareKeys orders key e.1 = .eq ∧
      Around orders key pre post) ∨
    (∃ pre post, d = pre ++ post ∧ Around orders key pre post) := by
  -- The key belongs to the first entry, before it, or somewhere in the rest.
  induction d with
  | nil => exact Or.inr ⟨[], [], rfl, by simp, by simp⟩
  | cons e rest ih =>
    have whole : Sorted orders ([] ++ e :: rest) := h
    cases hcmp : KeyOrder.compareKeys orders key e.1 with
    | eq => exact Or.inl ⟨[], e, rest, rfl, hcmp, by simp, whole.lt_post arity (Or.inr hcmp)⟩
    | lt =>
      refine Or.inr ⟨[], e :: rest, rfl, by simp, ?_⟩
      intro x hx
      rcases List.mem_cons.1 hx with rfl | hx
      · exact hcmp
      · exact whole.lt_post arity (Or.inl hcmp) x hx
    | gt =>
      have behind : ∀ pre : Dictionary, (∀ x ∈ pre, KeyOrder.compareKeys orders key x.1 = .gt) →
          ∀ x ∈ e :: pre, KeyOrder.compareKeys orders key x.1 = .gt := by
        intro pre hpre x hx
        rcases List.mem_cons.1 hx with rfl | hx
        · exact hcmp
        · exact hpre x hx
      rcases ih (h.sublist (List.sublist_cons_self e rest)) with
        ⟨pre, e', post, rfl, equal, around⟩ | ⟨pre, post, rfl, around⟩
      · exact Or.inl ⟨e :: pre, e', post, rfl, equal, behind pre around.pre_lt, around.lt_post⟩
      · exact Or.inr ⟨e :: pre, post, rfl, behind pre around.pre_lt, around.lt_post⟩

/-- Entering a key that is there replaces the payload of its entry and leaves everything else, the
key as it was first written included. -/
theorem Sorted.insert_of_contains {d : Dictionary} (h : Sorted orders d)
    (arity : key.length = orders.length) (value : String) (there : contains orders key d = true) :
    insert orders key value d = d.map fun e => if isAt orders key e then (e.1, value) else e := by
  rcases h.locate arity with ⟨pre, e, post, rfl, equal, around⟩ | ⟨pre, post, rfl, around⟩
  · have here : isAt orders key e = true := by rw [isAt, equal]; rfl
    -- The map leaves alone what is at another key.
    have same : ∀ part : Dictionary, (∀ x ∈ part, isAt orders key x = false) →
        part.map (fun e => if isAt orders key e then (e.1, value) else e) = part := by
      intro part hpart
      refine (List.map_congr_left ?_).trans (List.map_id part)
      intro x hx
      simp [hpart x hx]
    rw [around.insert_found equal, List.map_append, List.map_cons,
      same pre around.not_isAt_pre, same post around.not_isAt_post]
    simp [here]
  · rw [around.contains_absent] at there
    cases there

/-- Entering a key that is not there adds its entry, at the place where the order wants it. -/
theorem Sorted.insert_of_not_contains {d : Dictionary} (h : Sorted orders d)
    (arity : key.length = orders.length) (value : String) (absent : contains orders key d = false) :
    (insert orders key value d).Perm ((key, value) :: d) ∧
      Sorted orders (insert orders key value d) := by
  rcases h.locate arity with ⟨pre, e, post, rfl, equal, around⟩ | ⟨pre, post, rfl, around⟩
  · rw [Around.contains_found equal] at absent
    cases absent
  · rw [around.insert_new]
    exact ⟨List.perm_middle, h.insert_between around arity value⟩

end Dictionary

end FlatStore
