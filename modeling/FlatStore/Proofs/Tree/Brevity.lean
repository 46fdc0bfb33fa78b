import FlatStore.Proofs.Record
import FlatStore.Proofs.Tree.Queries
import FlatStore.Proofs.Tree.Rotation
import Mathlib.Data.Nat.Digits.Defs

/-! # Short writes

    A log takes no key and no value above a limit. What a tree writes of its own
    accord is far below: ids, links, heights, balance factors and counts are
    numbers of a machine word, and an entry that moves from one node to another
    was within the limit before.

    * `Script.Brief`: all that a script writes is within the limit, as long as
      what it reads is, and its result has a property that later writes rest on.
    * So deleting is brief (`brief_delete`), and of an insert all but the fresh
      leaf (`brief_linkRoot`, `brief_linkBelow`).
-/

namespace FlatStore

/-! ### Short texts -/

namespace Text

/-- The text is within the limit for keys and values. -/
def Short (s : String) : Prop := s.toUTF8.size ≤ Record.maxLength

theorem short_of_length {s : String} (h : s.length ≤ 100) : Short s := by
  have size := Utf8.size_toUTF8_le_length s.toList
  rw [String.ofList_toList, String.length_toList] at size
  rw [Short, Record.maxLength]
  omega

theorem length_numeral_le {n : Nat} (h : n < Word.size64) : (toString n).length ≤ 20 :=
  Nat.repr_length n 20 (by decide) (h.trans (by decide))

theorem short_numeral {n : Nat} (h : n < Word.size64) : Short (toString n) :=
  short_of_length ((length_numeral_le h).trans (by decide))

theorem short_link {link : Link} (h : link.Fits) : Short link.text := by
  cases link with
  | none => exact short_of_length (by decide)
  | some id => exact short_numeral ((Link.fits_some id).1 h)

theorem short_number {n : Int} (h : Word.Fits32 n) : Short (toString n) := by
  obtain ⟨low, high⟩ := h
  simp only [Word.half32] at low high
  cases n with
  | ofNat m =>
    have fits : m < Word.size64 := by
      simp only [Int.ofNat_eq_natCast, Word.size64] at *
      omega
    exact short_numeral fits
  | negSucc m =>
    have fits : m + 1 < Word.size64 := by
      simp only [Word.size64]
      omega
    have digits := length_numeral_le fits
    refine short_of_length ?_
    show ("-" ++ toString (m + 1)).length ≤ 100
    have sign : "-".length = 1 := rfl
    rw [String.length_append]
    omega

end Text

/-- The key is that of a field in a namespace, and its numbers fit into machine words. -/
def Key.Numbered : Key → Prop
  | .node ns id field => ns < Word.size64 ∧ id < Word.size64 ∧ field.index < Word.size64
  | .root ns | .size ns | .orders ns | .highWater ns | .freeCount ns => ns < Word.size64
  | .freeSlot ns slot => ns < Word.size64 ∧ slot < Word.size64
  | .map _ | .counter _ _ | .flag _ _ _ | .list _ _ => False

theorem Key.short_text {k : Key} (h : k.Numbered) : Text.Short k.text := by
  have comma : ",".length = 1 := rfl
  refine Text.short_of_length ?_
  cases k with
  | node ns id field =>
    obtain ⟨hns, hid, hfield⟩ := h
    have := Text.length_numeral_le hns
    have := Text.length_numeral_le hid
    have := Text.length_numeral_le hfield
    simp only [text, String.length_append]
    omega
  | freeSlot ns slot =>
    obtain ⟨hns, hslot⟩ := h
    have := Text.length_numeral_le hns
    have := Text.length_numeral_le hslot
    have tag : ",allocator,free,".length = 16 := rfl
    simp only [text, String.length_append]
    omega
  | root ns | size ns | orders ns | highWater ns | freeCount ns =>
    have digits := Text.length_numeral_le (n := ns) h
    simp only [text, String.length_append]
    exact (Nat.add_le_add_right digits _).trans (by decide)
  | map | counter | flag | list => exact h.elim

/-- All that is stored is within the limit. -/
def Contents.Short (c : Contents) : Prop :=
  ∀ key value, c key = some value → value.size ≤ Record.maxLength

theorem Contents.Short.put {c : Contents} (h : c.Short) {value : String} (key : String)
    (short : Text.Short value) : (c.put key value).Short := by
  intro key' value' held
  unfold Contents.put at held
  split at held
  · cases held
    exact short
  · exact h key' value' held

/-! ### Brief scripts -/

namespace Script

variable {α β : Type} {s : Script α} {P Q : α → Prop} {R : β → Prop}

/-- As long as what the script reads is short, all that it writes is short, and its result satisfies
`Q`. -/
def Brief (Q : α → Prop) : Script α → Prop
  | .done a => Q a
  | .fail _ => True
  | .read _ next => ∀ found, (∀ text ∈ found, Text.Short text) → (next found).Brief Q
  | .write key value next => (Text.Short key ∧ Text.Short value) ∧ next.Brief Q

namespace Brief

theorem bind {f : α → Script β} (first : s.Brief Q) (rest : ∀ a, Q a → (f a).Brief R) :
    (s >>= f).Brief R := by
  show (s.bind f).Brief R
  induction s with
  | done a => exact rest a first
  | fail => trivial
  | read key next ih => exact fun found short => ih found (first found short)
  | write key value next ih => exact ⟨first.1, ih first.2⟩

/-- On short contents all writes of a brief script are within the limits. -/
theorem fits (h : s.Brief Q) {c : Contents} (short : c.Short) :
    ∀ w ∈ s.writes c, Record.Fits ⟨w.1.toUTF8, w.2.toUTF8⟩ := by
  induction s generalizing c with
  | done | fail => exact List.forall_mem_nil _
  | read key next ih =>
    rw [writes]
    cases read : c.read key with
    | error e => exact List.forall_mem_nil _
    | ok found =>
      refine ih found (h found ?_) short
      -- The text that is found is the one that is stored.
      rintro text rfl
      unfold Contents.read at read
      cases held : c key.toUTF8 with
      | none =>
        rw [held] at read
        cases read
      | some bytes =>
        simp only [held] at read
        cases decoded : Utf8.decode bytes with
        | error fault =>
          rw [decoded] at read
          cases read
        | ok text =>
          rw [decoded] at read
          cases read
          rw [Text.Short, Utf8.toUTF8_of_decode decoded]
          exact short _ _ held
  | write key value next ih =>
    rw [writes, List.forall_mem_cons]
    exact ⟨h.1, ih h.2 (short.put key h.1.2)⟩

end Brief

theorem brief_put {key value : String} (hkey : Text.Short key) (hvalue : Text.Short value) :
    (put key value).Brief fun _ => True :=
  ⟨⟨hkey, hvalue⟩, trivial⟩

/-- What is read as a number is in the range of its reader. -/
theorem brief_getParsed {parse : String → Except Integer.Fault α} (key : String)
    (sound : ∀ raw a, parse raw = .ok a → P a) :
    (getParsed parse key).Brief fun found => ∀ a ∈ found, P a := by
  intro found _
  cases found with
  | none => exact fun a ha => by cases ha
  | some raw =>
    cases parsed : parse raw with
    | error fault =>
      simp only [Script.bind, parsed]
      trivial
    | ok value =>
      simp only [Script.bind, parsed]
      rintro a ⟨⟩
      exact sound raw value parsed

theorem Asks.brief {S : Structure} (h : s.Asks S) : s.Brief fun _ => True := by
  induction s with
  | done | fail => trivial
  | read key next ih => exact fun found _ => ih found (h.2 found)
  | write => exact h.elim

end Script

open Script

/-! ### Nodes -/

namespace Node

variable {ns : FileId} {id : NodeId}

theorem brief_read (ns : FileId) (id : NodeId) (field : NodeField) :
    (read ns id field).Brief Text.Short := by
  intro found short
  cases found with
  | none => trivial
  | some raw => exact short raw rfl

theorem brief_readLink (ns : FileId) (id : NodeId) (field : NodeField) :
    (readLink ns id field).Brief Link.Fits := by
  refine (brief_read ns id field).bind fun raw _ => ?_
  cases parsed : Link.parse? raw with
  | none => trivial
  | some link => exact Link.fits_of_parse? parsed

theorem brief_child (ns : FileId) (side : Side) (id : NodeId) :
    (child ns side id).Brief Link.Fits :=
  brief_readLink ns id side.field

theorem brief_parent (ns : FileId) (id : NodeId) : (parent ns id).Brief Link.Fits :=
  brief_readLink ns id .parent

variable (hns : ns < Word.size64) (hid : id < Word.size64)
include hns hid

theorem brief_write (field : NodeField) {value : String} (short : Text.Short value)
    (hfield : field.index < Word.size64 := by decide) :
    (write ns id field value).Brief fun _ => True :=
  brief_put (Key.short_text ⟨hns, hid, hfield⟩) short

theorem brief_setChild (side : Side) {link : Link} (fits : link.Fits) :
    (setChild ns side id link).Brief fun _ => True := by
  cases side <;> exact brief_write hns hid _ (Text.short_link fits)

theorem brief_setParent {link : Link} (fits : link.Fits) :
    (setParent ns id link).Brief fun _ => True :=
  brief_write hns hid .parent (Text.short_link fits)

/-- An entry that was stored in one node can be stored in another one. -/
theorem brief_copyEntry (source : NodeId) {arity : Nat} (small : arity + 6 ≤ Word.size64) :
    (copyEntry ns source id arity).Brief fun _ => True := by
  have components : ∀ is : List Nat, (∀ i ∈ is, i < arity) →
      (is.forM fun i => do
        write ns id (.component i) (← component ns source i)).Brief fun _ => True := by
    intro is below
    induction is with
    | nil => trivial
    | cons i is ih =>
      have hi : (NodeField.component i).index < Word.size64 := by
        have := below i List.mem_cons_self
        simp only [NodeField.index]
        omega
      have here : (do
          write ns id (.component i) (← component ns source i)).Brief fun _ => True :=
        (brief_read ns source _).bind fun text short => brief_write hns hid _ short hi
      exact here.bind fun _ _ => ih fun j hj => below j (List.mem_cons_of_mem i hj)
  refine (components _ fun i hi => List.mem_range.1 hi).bind fun _ _ => ?_
  exact (brief_read ns source .data).bind fun text short => brief_write hns hid .data short

end Node

/-! ### Pools -/

namespace IdPool

variable {ns : FileId}

theorem brief_count (k : Key) :
    (do return (← getParsed Integer.unsigned64 k.text).getD 0 : Script Nat).Brief
      (· < Word.size64) := by
  refine (brief_getParsed k.text fun _ _ => Integer.unsigned64_lt).bind fun found bound => ?_
  cases found with
  | none => exact Nat.zero_lt_succ _
  | some n => exact bound n rfl

theorem brief_successor (n : Nat) : (Script.successor n).Brief (· < Word.size64) := by
  unfold Script.successor
  split
  · next fits => exact fits
  · trivial

theorem brief_free (hns : ns < Word.size64) {id : NodeId} (hid : id < Word.size64) :
    (free ns id).Brief fun _ => True := by
  refine (brief_count (.freeCount ns)).bind fun count fits => ?_
  refine (brief_put (Key.short_text (k := .freeSlot ns count) ⟨hns, fits⟩)
    (Text.short_numeral hid)).bind fun _ _ => (brief_successor count).bind fun next fits => ?_
  exact brief_put (Key.short_text (k := .freeCount ns) hns) (Text.short_numeral fits)

end IdPool

namespace Tree

variable {ns : FileId}

theorem brief_root (ns : FileId) : (root ns).Brief Link.Fits := by
  intro found _
  cases found with
  | none => exact Link.fits_none
  | some raw =>
    cases parsed : Link.parse? raw with
    | none =>
      simp only [Script.bind, parsed]
      trivial
    | some link =>
      simp only [Script.bind, parsed]
      exact Link.fits_of_parse? parsed

theorem brief_size (ns : FileId) : (size ns).Brief (· < Word.size64) :=
  IdPool.brief_count (.size ns)

theorem brief_fitting (n : Int) : (fitting n).Brief Word.Fits32 := by
  unfold fitting
  split
  · next fits => exact fits
  · trivial

theorem brief_requiredChild (ns : FileId) (side : Side) (id : NodeId) :
    (requiredChild ns side id).Brief (· < Word.size64) := by
  refine (Node.brief_child ns side id).bind fun link fits => ?_
  cases link with
  | none => trivial
  | some child => exact (Link.fits_some child).1 fits

theorem brief_height (ns : FileId) (link : Link) : (Node.height ns link).Brief fun _ => True :=
  ((asking ns).heightBelow link).brief

theorem brief_leftmost (ns : FileId) (bound : Nat) {id : NodeId} (hid : id < Word.size64) :
    (leftmost ns bound id).Brief (· < Word.size64) := by
  induction bound generalizing id with
  | zero => trivial
  | succ bound ih =>
    refine (Node.brief_child ns .left id).bind fun link fits => ?_
    cases link with
    | none => exact hid
    | some child => exact ih ((Link.fits_some child).1 fits)

section Words

variable (hns : ns < Word.size64)
include hns

theorem brief_setRoot {link : Link} (fits : link.Fits) : (setRoot ns link).Brief fun _ => True :=
  brief_put (Key.short_text (k := .root ns) hns) (Text.short_link fits)

theorem brief_setSize {n : Nat} (fits : n < Word.size64) : (setSize ns n).Brief fun _ => True :=
  brief_put (Key.short_text (k := .size ns) hns) (Text.short_numeral fits)

/-! ### Rebalancing -/

theorem brief_update {id : NodeId} (hid : id < Word.size64) :
    (update ns id).Brief fun _ => True := by
  refine (Node.brief_child ns .left id).bind fun left _ => (brief_height ns left).bind fun _ _ =>
    (Node.brief_child ns .right id).bind fun right _ => (brief_height ns right).bind fun _ _ =>
    (brief_fitting _).bind fun height fits => (brief_fitting _).bind fun balance fits' =>
    (brief_height ns (some id)).bind fun stored _ => ?_
  -- What is left is the same whether the height was written or not.
  have rest : (do
      if (← Node.balance ns id) ≠ balance then
        Node.write ns id .balance (toString balance)
      return balance : Script Int).Brief fun _ => True := by
    refine ((asking ns).balance id).brief.bind fun stored _ => ?_
    split
    · exact (Node.brief_write hns hid .balance (Text.short_number fits')).bind fun _ _ => trivial
    · trivial
  split
  · exact (Node.brief_write hns hid .height (Text.short_number fits)).bind fun _ _ => rest
  · exact rest

theorem brief_replaceChild {parent new : Link} (hparent : parent.Fits) (old : NodeId)
    (hnew : new.Fits) : (replaceChild ns parent old new).Brief fun _ => True := by
  cases parent with
  | none => exact brief_setRoot hns hnew
  | some parent =>
    have hid := (Link.fits_some parent).1 hparent
    refine (Node.brief_child ns .left parent).bind fun left _ => ?_
    split
    · exact Node.brief_setChild hns hid .left hnew
    · exact Node.brief_setChild hns hid .right hnew

theorem brief_rotate (up : Side) {id : NodeId} (hid : id < Word.size64) :
    (rotate ns up id).Brief (· < Word.size64) := by
  refine (brief_requiredChild ns up id).bind fun pivot hpivot =>
    (Node.brief_child ns up.other pivot).bind fun inner hinner =>
    (Node.brief_parent ns id).bind fun parent hparent =>
    (Node.brief_setChild hns hid up hinner).bind fun _ _ => ?_
  have link : ∀ {id : NodeId}, id < Word.size64 → Link.Fits (some id) :=
    fun h => (Link.fits_some _).2 h
  have rest : (do
      Node.setChild ns up.other pivot (some id)
      Node.setParent ns id (some pivot)
      Node.setParent ns pivot parent
      replaceChild ns parent id (some pivot)
      let _ ← update ns id
      let _ ← update ns pivot
      return pivot : Script NodeId).Brief (· < Word.size64) :=
    (Node.brief_setChild hns hpivot up.other (link hid)).bind fun _ _ =>
      (Node.brief_setParent hns hid (link hpivot)).bind fun _ _ =>
      (Node.brief_setParent hns hpivot hparent).bind fun _ _ =>
      (brief_replaceChild hns hparent id (link hpivot)).bind fun _ _ =>
      (brief_update hns hid).bind fun _ _ => (brief_update hns hpivot).bind fun _ _ => hpivot
  cases inner with
  | none => exact rest
  | some inner =>
    have hid' := (Link.fits_some inner).1 hinner
    exact (Node.brief_setParent hns hid' (link hid)).bind fun _ _ => rest

theorem brief_lighten (heavy : Side) {id : NodeId} (hid : id < Word.size64) :
    (lighten ns heavy id).Brief (· < Word.size64) := by
  refine (brief_requiredChild ns heavy id).bind fun child hchild =>
    (Node.brief_child ns heavy child).bind fun outer _ => (brief_height ns outer).bind fun _ _ =>
    (Node.brief_child ns heavy.other child).bind fun inner _ =>
    (brief_height ns inner).bind fun _ _ => ?_
  split
  · exact (brief_rotate hns heavy.other hchild).bind fun _ _ => brief_rotate hns heavy hid
  · exact brief_rotate hns heavy hid

theorem brief_rebalanceNode {id : NodeId} (hid : id < Word.size64) :
    (rebalanceNode ns id).Brief (· < Word.size64) := by
  refine (brief_update hns hid).bind fun balance _ => ?_
  split
  · exact brief_lighten hns .left hid
  · split
    · exact brief_lighten hns .right hid
    · exact hid

theorem brief_climb (bound : Nat) {link : Link} (fits : link.Fits) :
    (climb ns bound link).Brief fun _ => True := by
  induction bound generalizing link with
  | zero => cases link <;> trivial
  | succ bound ih =>
    cases link with
    | none => trivial
    | some id =>
      refine (brief_rebalanceNode hns ((Link.fits_some id).1 fits)).bind fun top _ => ?_
      exact (Node.brief_parent ns top).bind fun parent hparent => ih hparent

/-! ### Inserting -/

/-- All that is left to do for a first node that is ready. -/
theorem brief_linkRoot {leaf : NodeId} (hleaf : leaf < Word.size64) :
    (do
      setRoot ns (some leaf)
      setSize ns 1 : Script Unit).Brief fun _ => True :=
  (brief_setRoot hns ((Link.fits_some leaf).2 hleaf)).bind fun _ _ => brief_setSize hns (by decide)

/-- All that is left to do for a leaf that is ready. -/
theorem brief_linkBelow (side : Side) {id leaf : NodeId} (hid : id < Word.size64)
    (hleaf : leaf < Word.size64) :
    (do
      Node.setChild ns side id (some leaf)
      setSize ns (← Script.successor (← size ns))
      rebalanceFrom ns (some id) : Script Unit).Brief fun _ => True :=
  (Node.brief_setChild hns hid side ((Link.fits_some leaf).2 hleaf)).bind fun _ _ =>
    (brief_size ns).bind fun size _ => (IdPool.brief_successor size).bind fun _ fits =>
    (brief_setSize hns fits).bind fun _ _ =>
    brief_climb hns walkBound ((Link.fits_some id).2 hid)

/-! ### Deleting -/

theorem brief_splice {id : NodeId} (hid : id < Word.size64) :
    (splice ns id).Brief fun _ => True := by
  have linked : ∀ {parent child : Link}, parent.Fits → child.Fits → (do
      replaceChild ns parent id child
      IdPool.free ns id
      rebalanceFrom ns parent : Script Unit).Brief fun _ => True :=
    fun hparent hchild => (brief_replaceChild hns hparent id hchild).bind fun _ _ =>
      (IdPool.brief_free hns hid).bind fun _ _ => brief_climb hns walkBound hparent
  refine (Node.brief_child ns .left id).bind fun left hleft => ?_
  cases left with
  | some left =>
    simp only [pure_bind]
    refine (Node.brief_parent ns id).bind fun parent hparent => ?_
    exact (Node.brief_setParent hns ((Link.fits_some left).1 hleft) hparent).bind fun _ _ =>
      linked hparent hleft
  | none =>
    refine (Node.brief_child ns .right id).bind fun child hchild =>
      (Node.brief_parent ns id).bind fun parent hparent => ?_
    cases child with
    | some child =>
      exact (Node.brief_setParent hns ((Link.fits_some child).1 hchild) hparent).bind fun _ _ =>
        linked hparent hchild
    | none => exact linked hparent hchild

end Words

/-- The id in a place, if there is one, is a word of 64 bits. -/
def Place.Fits : Place → Prop
  | .empty => True
  | .found id | .below id _ => id < Word.size64

theorem brief_descend {t : Tree} (key : List String) (bound : Nat) {id : NodeId}
    (hid : id < Word.size64) : (t.descend key bound id).Brief Place.Fits := by
  induction bound generalizing id with
  | zero => trivial
  | succ bound ih =>
    refine ((asking t.ns).compareFrom id 0 t.orders key).brief.bind fun order _ => ?_
    split
    · exact hid
    · next side _ =>
      refine (Node.brief_child t.ns side id).bind fun child fits => ?_
      cases child with
      | none => exact hid
      | some child => exact ih ((Link.fits_some child).1 fits)

theorem brief_place (t : Tree) (key : List String) : (t.place key).Brief Place.Fits := by
  refine (brief_root t.ns).bind fun link fits => ?_
  cases link with
  | none => trivial
  | some id => exact brief_descend key walkBound ((Link.fits_some id).1 fits)

variable {t : Tree} (hns : t.ns < Word.size64) (small : t.arity + 6 ≤ Word.size64)
include hns small

theorem brief_vacate {target : NodeId} (hid : target < Word.size64) :
    (t.vacate target).Brief (· < Word.size64) := by
  refine (Node.brief_child t.ns .left target).bind fun left _ =>
    (Node.brief_child t.ns .right target).bind fun right fits => ?_
  cases left with
  | none => exact hid
  | some left =>
    cases right with
    | none => exact hid
    | some right =>
      have hright := (Link.fits_some right).1 fits
      exact (brief_leftmost t.ns walkBound hright).bind fun successor hsuccessor =>
        (Node.brief_copyEntry hns hid successor small).bind fun _ _ => hsuccessor

/-- Deleting moves entries that were stored before, and else writes numbers only. -/
theorem brief_delete (key : List String) : (t.delete key).Brief fun _ => True := by
  have find : (t.find key).Brief Link.Fits := by
    refine (brief_place t key).bind fun place fits => ?_
    cases place with
    | found id => exact (Link.fits_some id).2 fits
    | empty | below => exact Link.fits_none
  refine ((asking t.ns).checkKey key).brief.bind fun _ _ => find.bind fun found fits => ?_
  cases found with
  | none => trivial
  | some target =>
    refine (brief_vacate hns small ((Link.fits_some target).1 fits)).bind fun spliced hspliced =>
      (brief_splice hns hspliced).bind fun _ _ => (brief_size t.ns).bind fun size hsize => ?_
    exact (brief_setSize hns (by omega)).bind fun _ _ => trivial

end Tree

end FlatStore
