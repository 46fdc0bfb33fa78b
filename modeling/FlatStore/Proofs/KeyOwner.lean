import FlatStore.Proofs.KeyText

/-! # Structures own their keys

    Every key belongs to one structure (`Key.owner`): a map entry, a counter, a
    list, the flags under one joined name, or a namespace. Texts of keys of
    different structures differ (`owner_eq_of_text_eq`), although any text may
    stand in a name:

    * the tags start with different letters, and no tag with a digit;
    * the numeral behind a tag ends before the comma, if there is one;
    * a flag puts a comma between its name and what is extra, which may hold
      commas itself; so flags belong together if their joined names agree.

    Apart from such flags, no two keys share a text (`text_eq_text_iff`).
-/

namespace FlatStore

/-- A set of fields that are used together. -/
inductive Structure where
  | map (name : String)
  | counter (id : FileId) (extra : Option String)
  | list (id : FileId) (name : Option String)
  /-- The flags whose name and extra part are joined to the same text. -/
  | flags (id : FileId) (joined : String)
  /-- The recorded orders, the tree and the pool of a namespace. -/
  | space (ns : FileId)
  deriving DecidableEq, Repr

namespace Key

/-- The structure that a key belongs to. -/
def owner : Key → Structure
  | .map name => .map name
  | .counter id extra => .counter id extra
  | .flag id name extra => .flags id (name ++ optional extra)
  | .list id name => .list id name
  | .node ns _ _ | .root ns | .size ns | .orders ns | .highWater ns | .freeCount ns
  | .freeSlot ns _ => .space ns

theorem toList_optional (extra : Option String) :
    (optional extra).toList = extra.elim [] fun text => ',' :: text.toList := by
  cases extra <;> simp [optional]

/-- No digit follows the numeral of a counter or a list. -/
theorem head_optional (extra : Option String) :
    ∀ c ∈ (optional extra).toList.head?, ¬ c.isDigit := by
  rw [toList_optional]
  cases extra <;> simp

theorem optional_inj {extra extra' : Option String} (h : optional extra = optional extra') :
    extra = extra' := by
  have lists := congrArg String.toList h
  rw [toList_optional, toList_optional] at lists
  cases extra <;> cases extra' <;> simp_all [String.toList_inj]

/-- The numeral behind a tag, and what follows it, are determined by the text. -/
theorem numbered_inj {tag : String} {id id' : FileId} {rest rest' : String}
    (h : tag ++ toString id ++ rest = tag ++ toString id' ++ rest')
    (stops : ∀ c ∈ rest.toList.head?, ¬ c.isDigit)
    (stops' : ∀ c ∈ rest'.toList.head?, ¬ c.isDigit) : id = id' ∧ rest = rest' := by
  have lists := congrArg String.toList h
  simp only [String.toList_append, List.append_assoc, List.append_cancel_left_eq,
    Nat.toString_eq_ofList_toDigits, String.toList_ofList] at lists
  obtain ⟨same, rest⟩ := numeral_append_inj stops stops' lists
  exact ⟨same, String.toList_inj.1 rest⟩

theorem text_flag (id : FileId) (name : String) (extra : Option String) :
    (Key.flag id name extra).text =
      "validator-" ++ toString id ++ ("," ++ (name ++ optional extra)) := by
  simp only [text, String.append_assoc]

/-- The letter that a tag starts with. -/
def initial? : Key → Option Char
  | .map _ => some 'm'
  | .counter _ _ => some 'c'
  | .flag _ _ _ => some 'v'
  | .list _ _ => some 'l'
  | _ => none

theorem head_text {k : Key} {c : Char} (h : k.initial? = some c) : k.text.toList.head? = some c := by
  cases k <;> cases h <;> simp [text]

/-- Keys with the same text belong to the same structure. -/
theorem owner_eq_of_text_eq {k k' : Key} (h : k.text = k'.text) : k.owner = k'.owner := by
  by_cases here : k.Local
  · rw [(text_inj here).1 h]
  by_cases there : k'.Local
  · rw [(text_inj there).1 h.symm]
  -- Neither is in a namespace, so both start with the letter of their tag.
  have heads : ∀ c c', k.initial? = some c → k'.initial? = some c' → c = c' := by
    intro c c' hc hc'
    have head := head_text hc
    rw [h, head_text hc'] at head
    exact (Option.some.inj head).symm
  cases k with
  | node | root | size | orders | highWater | freeCount | freeSlot => exact absurd rfl here
  | map name =>
    cases k' with
    | node | root | size | orders | highWater | freeCount | freeSlot => exact absurd rfl there
    | counter | flag | list => exact absurd (heads _ _ rfl rfl) (by decide)
    | map name' => rw [owner, owner, (String.append_right_inj _).1 h]
  | counter id extra =>
    cases k' with
    | node | root | size | orders | highWater | freeCount | freeSlot => exact absurd rfl there
    | map | flag | list => exact absurd (heads _ _ rfl rfl) (by decide)
    | counter id' extra' =>
      obtain ⟨rfl, rest⟩ := numbered_inj h (head_optional extra) (head_optional extra')
      rw [optional_inj rest]
  | flag id name extra =>
    cases k' with
    | node | root | size | orders | highWater | freeCount | freeSlot => exact absurd rfl there
    | map | counter | list => exact absurd (heads _ _ rfl rfl) (by decide)
    | flag id' name' extra' =>
      rw [text_flag, text_flag] at h
      obtain ⟨rfl, rest⟩ := numbered_inj h (by simp) (by simp)
      rw [owner, owner, (String.append_right_inj _).1 rest]
  | list id name =>
    cases k' with
    | node | root | size | orders | highWater | freeCount | freeSlot => exact absurd rfl there
    | map | counter | flag => exact absurd (heads _ _ rfl rfl) (by decide)
    | list id' name' =>
      obtain ⟨rfl, rest⟩ := numbered_inj h (head_optional name) (head_optional name')
      rw [optional_inj rest]

/-! ### Keys with the same text -/

/-- The keys are of one kind and have the same parts. A part that is absent is another than an empty
one, and node fields are told apart by the numbers that stand for them. -/
def SameParts : Key → Key → Prop
  | .node ns id f, .node ns' id' f' => ns = ns' ∧ id = id' ∧ f.index = f'.index
  | k, k' => k = k'

/-- The keys are flags of one number, and what follows the number is the same text. -/
def SameFlag : Key → Key → Prop
  | .flag id name extra, .flag id' name' extra' =>
    id = id' ∧ name ++ optional extra = name' ++ optional extra'
  | _, _ => False

theorem sameParts_iff {k k' : Key} : k.SameParts k' ↔ k = k' := by
  unfold SameParts
  split
  · next ns id f ns' id' f' =>
    have field : f.index = f'.index ↔ f = f' := ⟨index_inj, fun h => by rw [h]⟩
    rw [Key.node.injEq, field]
  · rfl

theorem SameFlag.text_eq {k k' : Key} (h : k.SameFlag k') : k.text = k'.text := by
  unfold SameFlag at h
  split at h
  · obtain ⟨rfl, joined⟩ := h
    rw [text_flag, text_flag, joined]
  · exact h.elim

/-- A structure outside of the namespaces has one key, unless it is one of flags. -/
theorem eq_or_sameFlag_of_owner_eq {k k' : Key} (tagged : ¬ k.Local) (h : k.owner = k'.owner) :
    k = k' ∨ k.SameFlag k' := by
  cases k with
  | node | root | size | orders | highWater | freeCount | freeSlot => exact absurd rfl tagged
  | map | counter | list =>
    cases k' <;> cases h
    exact Or.inl rfl
  | flag id name extra =>
    cases k' with
    | flag id' name' extra' => exact Or.inr (Structure.flags.inj h)
    | map | counter | list | node | root | size | orders | highWater | freeCount | freeSlot =>
      cases h

/-- Two keys have the same text exactly if they are the same, part for part, or both are flags of
one number with the same text behind it. -/
theorem text_eq_text_iff (k k' : Key) : k.text = k'.text ↔ k.SameParts k' ∨ k.SameFlag k' := by
  rw [sameParts_iff]
  constructor
  · intro h
    by_cases here : k.Local
    · exact Or.inl ((text_inj here).1 h)
    · exact eq_or_sameFlag_of_owner_eq here (owner_eq_of_text_eq h)
  · rintro (rfl | same)
    · rfl
    · exact same.text_eq

/-- A comma in the name of a flag, or one in front of what is extra. -/
example : (Key.flag 3 "alice,#rust" none).text = (Key.flag 3 "alice" (some "#rust")).text := by
  decide

end Key

end FlatStore
