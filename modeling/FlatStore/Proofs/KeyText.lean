import FlatStore.Key
import FlatStore.Proofs.Numeral

/-! # Texts of namespace keys

    A namespace key is the number of its namespace, a comma, and a tail. No
    other key has its text (`text_inj`), because

    * a numeral ends where the next character is no digit;
    * the tail starts with a digit for a node field, and with the name of the
      field otherwise;
    * keys that belong to no namespace start with a letter.
-/

namespace FlatStore.Key

/-! ### Taking a numeral off the front -/

/-- A numeral is all the digits that a text starts with, when no digit follows it. -/
theorem takeWhile_numeral (n : Nat) {rest : List Char} (h : ∀ c ∈ rest.head?, ¬ c.isDigit) :
    (Nat.toDigits 10 n ++ rest).takeWhile Char.isDigit = Nat.toDigits 10 n := by
  rw [List.takeWhile_append_of_pos fun c hc => Integer.isDigit_of_mem_numeral hc]
  cases rest with
  | nil => simp
  | cons c rest =>
    have : ¬ c.isDigit := h c rfl
    simp [this]

/-- The numeral at the front of a text and what follows it are determined by the text. -/
theorem numeral_append_inj {m n : Nat} {r s : List Char} (hr : ∀ c ∈ r.head?, ¬ c.isDigit)
    (hs : ∀ c ∈ s.head?, ¬ c.isDigit)
    (h : Nat.toDigits 10 m ++ r = Nat.toDigits 10 n ++ s) : m = n ∧ r = s := by
  have digits : Nat.toDigits 10 m = Nat.toDigits 10 n := by
    rw [← takeWhile_numeral m hr, h, takeWhile_numeral n hs]
  refine ⟨?_, ?_⟩
  · have value := congrArg (fun cs => Nat.ofDigitChars 10 cs 0) digits
    simpa using value
  · rw [digits] at h
    exact List.append_cancel_left h

/-- A numeral starts with a digit. -/
theorem numeral_append_ne_cons {n : Nat} {c : Char} {r s : List Char} (hc : ¬ c.isDigit) :
    Nat.toDigits 10 n ++ r ≠ c :: s := by
  intro h
  obtain ⟨d, rest, hd, -⟩ := Integer.head_numeral n
  have digit : d.isDigit := Integer.isDigit_of_mem_numeral (n := n) (by simp [hd])
  rw [hd] at h
  cases h
  exact hc digit

/-! ### Namespace keys -/

/-- The namespace of a key, if it belongs to one. -/
def namespace? : Key → Option FileId
  | .node ns _ _ | .root ns | .size ns | .orders ns | .highWater ns | .freeCount ns
  | .freeSlot ns _ => some ns
  | _ => none

/-- The text of a namespace key behind its first comma. -/
def tail : Key → String
  | .node _ id field => toString id ++ "," ++ toString field.index
  | .root _ => "root_index"
  | .size _ => "size"
  | .orders _ => "orders"
  | .highWater _ => "allocator,next"
  | .freeCount _ => "allocator,free_count"
  | .freeSlot _ slot => "allocator,free," ++ toString slot
  | .map _ | .counter _ _ | .flag _ _ _ | .list _ _ => ""

theorem toList_text {k : Key} {ns : FileId} (h : k.namespace? = some ns) :
    k.text.toList = Nat.toDigits 10 ns ++ ',' :: k.tail.toList := by
  cases k <;> simp_all [namespace?, text, tail]

theorem toList_tail_node (ns : FileId) (id : NodeId) (f : NodeField) :
    (Key.node ns id f).tail.toList = Nat.toDigits 10 id ++ ',' :: Nat.toDigits 10 f.index := by
  simp [tail]

/-- The number of a node field tells the field. -/
theorem index_inj {f g : NodeField} (h : f.index = g.index) : f = g := by
  cases f <;> cases g <;> simp_all [NodeField.index] <;> omega

/-- What follows the first comma starts with a digit for a node field only. -/
theorem tail_of_named {k : Key} {ns : FileId} (hk : k.namespace? = some ns)
    (named : ¬ ∃ id f, k = .node ns id f) : ∃ c rest, k.tail.toList = c :: rest ∧ ¬ c.isDigit := by
  cases k with
  | node ns' id f => cases hk; exact absurd ⟨id, f, rfl⟩ named
  | root => exact ⟨'r', "oot_index".toList, by simp [tail], by decide⟩
  | size => exact ⟨'s', "ize".toList, by simp [tail], by decide⟩
  | orders => exact ⟨'o', "rders".toList, by simp [tail], by decide⟩
  | highWater => exact ⟨'a', "llocator,next".toList, by simp [tail], by decide⟩
  | freeCount => exact ⟨'a', "llocator,free_count".toList, by simp [tail], by decide⟩
  | freeSlot ns' slot =>
    exact ⟨'a', "llocator,free,".toList ++ Nat.toDigits 10 slot, by simp [tail], by decide⟩
  | map | counter | flag | list => cases hk

/-- Inside a namespace, what follows the first comma tells the node field. -/
theorem eq_node_of_tail_eq {k : Key} {ns : FileId} {id : NodeId} {f : NodeField}
    (hk : k.namespace? = some ns) (h : k.tail = (Key.node ns id f).tail) :
    k = .node ns id f := by
  by_cases named : ∃ id f, k = .node ns id f
  · -- Two node fields: the numerals of id and field agree.
    obtain ⟨id', f', rfl⟩ := named
    have lists := congrArg String.toList h
    rw [toList_tail_node, toList_tail_node] at lists
    obtain ⟨rfl, hf⟩ := numeral_append_inj (by simp) (by simp) lists
    have value := congrArg (fun cs => Nat.ofDigitChars 10 cs 0) (List.cons.inj hf).2
    rw [index_inj (f := f') (g := f) (by simpa using value)]
  · -- The other keys go on with a letter, where a node field has a digit.
    obtain ⟨c, rest, hc, digit⟩ := tail_of_named hk named
    have lists := congrArg String.toList h
    rw [hc, toList_tail_node] at lists
    exact absurd lists.symm (numeral_append_ne_cons digit)

/-- The place of the free stack is told by its numeral. -/
theorem slot_inj {ns ns' : FileId} {slot slot' : Nat}
    (h : (Key.freeSlot ns slot).tail = (Key.freeSlot ns' slot').tail) : slot = slot' := by
  have lists := congrArg String.toList h
  have digits : Nat.toDigits 10 slot = Nat.toDigits 10 slot' := by simpa [tail] using lists
  have value := congrArg (fun cs => Nat.ofDigitChars 10 cs 0) digits
  simpa using value

/-- Inside a namespace, what follows the first comma tells the key. -/
theorem tail_inj {k k' : Key} {ns : FileId} (hk : k.namespace? = some ns)
    (hk' : k'.namespace? = some ns) (h : k.tail = k'.tail) : k = k' := by
  cases k' with
  | node ns' id f => cases hk'; exact eq_node_of_tail_eq hk h
  | map | counter | flag | list => cases hk'
  | freeSlot ns' slot' =>
    cases k with
    | node => cases hk; exact (eq_node_of_tail_eq hk' h.symm).symm
    | freeSlot ns'' slot => cases hk; cases hk'; rw [slot_inj h]
    | map | counter | flag | list => cases hk
    | root | size | orders | highWater | freeCount =>
      exact absurd (congrArg String.toList h) (by simp [tail])
  | root | size | orders | highWater | freeCount =>
    cases k with
    | node => cases hk; exact (eq_node_of_tail_eq hk' h.symm).symm
    | map | counter | flag | list => cases hk
    | root | size | orders | highWater | freeCount | freeSlot =>
      cases hk
      cases hk'
      first | rfl | exact absurd (congrArg String.toList h) (by simp [tail])

/-! ### Whole keys -/

/-- A key that belongs to no namespace starts with a letter. -/
theorem toList_text_of_tagged {k : Key} (h : k.namespace? = none) :
    ∃ c rest, k.text.toList = c :: rest ∧ ¬ c.isDigit := by
  cases k with
  | map name => exact ⟨'m', "ap-".toList ++ name.toList, by simp [text], by decide⟩
  | counter id extra =>
    refine ⟨'c', "ounter-".toList ++ (toString id ++ optional extra).toList, ?_, by decide⟩
    simp [text]
  | flag id name extra =>
    refine ⟨'v', "alidator-".toList ++ (toString id ++ "," ++ name ++ optional extra).toList,
      ?_, by decide⟩
    simp [text]
  | list id name =>
    refine ⟨'l', "ist-".toList ++ (toString id ++ optional name).toList, ?_, by decide⟩
    simp [text]
  | node | root | size | orders | highWater | freeCount | freeSlot => cases h

/-- Whether a key belongs to a namespace. -/
def Local (k : Key) : Prop := k.namespace?.isSome

@[simp]
theorem local_node (ns : FileId) (id : NodeId) (f : NodeField) : Local (.node ns id f) := rfl

@[simp]
theorem local_root (ns : FileId) : Local (.root ns) := rfl

@[simp]
theorem local_size (ns : FileId) : Local (.size ns) := rfl

@[simp]
theorem local_orders (ns : FileId) : Local (.orders ns) := rfl

@[simp]
theorem local_highWater (ns : FileId) : Local (.highWater ns) := rfl

@[simp]
theorem local_freeCount (ns : FileId) : Local (.freeCount ns) := rfl

@[simp]
theorem local_freeSlot (ns : FileId) (slot : Nat) : Local (.freeSlot ns slot) := rfl

/-- No other key has the text of a namespace key. -/
theorem text_inj {k k' : Key} (hk : k.Local) : k.text = k'.text ↔ k = k' := by
  refine ⟨?_, fun h => by rw [h]⟩
  intro h
  obtain ⟨ns, hns⟩ := Option.isSome_iff_exists.1 hk
  have lists := congrArg String.toList h
  rw [toList_text hns] at lists
  -- The text begins with the numeral of the namespace, and one of no namespace with a letter.
  cases hns' : k'.namespace? with
  | none =>
    obtain ⟨c, rest, hc, digit⟩ := toList_text_of_tagged hns'
    rw [hc] at lists
    exact absurd lists (numeral_append_ne_cons digit)
  | some ns' =>
    rw [toList_text hns'] at lists
    obtain ⟨rfl, tails⟩ := numeral_append_inj (by simp) (by simp) lists
    exact tail_inj hns hns' (String.toList_inj.1 (List.cons.inj tails).2)

end FlatStore.Key
