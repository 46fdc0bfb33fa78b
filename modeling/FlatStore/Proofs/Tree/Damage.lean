import FlatStore.Proofs.Damage
import FlatStore.Proofs.Tree.Call

/-! # Damaged trees

    No call of a tree takes an unreadable field for something else: every read
    on the way, of a node, of the tree or of its pool, either finds what it may
    find or ends the call with an error under the key of the field
    (`Tree.wary`). So a call of a damaged tree gives what it gives undamaged,
    or such an error (`damage_is_reported`).
-/

namespace FlatStore

open Script

/-! ### Nodes -/

namespace Node

variable (ns : FileId) (id : NodeId)

/-- A text field has to be there, and may hold any text. -/
theorem wary_read {field : NodeField} (text : ∀ raw, (Key.node ns id field).Admits raw) :
    (read ns id field).Wary := by
  refine wary_get (k := .node ns id field) rfl ?_ ?_
  · intro found bad
    cases found with
    | none => exact ⟨.missingNodeField, rfl⟩
    | some raw => exact absurd (text raw) bad
  · intro found
    cases found <;> trivial

theorem wary_readNumber {field : NodeField}
    (admits : ∀ raw n, Integer.signed32 raw = .ok n → (Key.node ns id field).Admits raw) :
    (readNumber ns id field).Wary := by
  refine wary_getParsed (k := .node ns id field) rfl admits (fun _ => ⟨.missingNodeField, rfl⟩) ?_
  intro found
  cases found <;> trivial

theorem wary_readLink {field : NodeField}
    (admits : ∀ raw l, Link.parse? raw = some l → (Key.node ns id field).Admits raw) :
    (readLink ns id field).Wary := by
  rw [readLink, read, LawfulMonad.bind_assoc]
  refine wary_get (k := .node ns id field) rfl ?_ ?_
  · intro found bad
    cases found with
    | none => exact ⟨.missingNodeField, rfl⟩
    | some raw =>
      cases parsed : Link.parse? raw with
      | some l => exact absurd (admits raw l parsed) bad
      | none => exact ⟨.link raw, by simp only [pure_bind, parsed]; rfl⟩
  · intro found
    cases found with
    | none => trivial
    | some raw =>
      simp only [pure_bind]
      split <;> trivial

end Node

/-! ### Trees and pools -/

/-- A number that counts as zero until it is written. -/
theorem Script.wary_count {k : Key} (hk : k.Local)
    (admits : ∀ raw n, Integer.unsigned64 raw = .ok n → k.Admits raw) (optional : ¬ k.Required) :
    (do return (← getParsed Integer.unsigned64 k.text).getD 0 : Script Nat).Wary :=
  wary_getParsed hk admits (fun required => absurd required optional) fun _ => trivial

theorem IdPool.wary_topId (ns : FileId) (slot : Nat) : (topId ns slot).Wary := by
  refine wary_getParsed (k := .freeSlot ns slot) rfl (fun _ n parsed => ⟨n, parsed⟩)
    (fun _ => ⟨.missingFreeSlot, rfl⟩) ?_
  intro found
  cases found <;> trivial

namespace Tree

theorem wary_root (ns : FileId) : (root ns).Wary := by
  refine wary_get (k := .root ns) rfl ?_ ?_
  · intro found bad
    cases found with
    | none => exact absurd id bad
    | some raw =>
      cases parsed : Link.parse? raw with
      | some l => exact absurd ⟨l, parsed⟩ bad
      | none => exact ⟨.link raw, by simp only [parsed]; rfl⟩
  · intro found
    cases found with
    | none => trivial
    | some raw =>
      simp only
      split <;> trivial

/-- Reporting unreadable fields is a rule for all that a tree does. -/
def wary (ns : FileId) : Rule ns where
  Holds := Wary
  done _ := trivial
  fail _ := trivial
  bind := Wary.bind
  height id := Node.wary_readNumber ns id fun _ n parsed => ⟨n, parsed⟩
  balance id := Node.wary_readNumber ns id fun _ n parsed => ⟨n, parsed⟩
  data id := Node.wary_read ns id fun _ => trivial
  child side id := by
    refine Node.wary_readLink ns id fun raw l parsed => ?_
    cases side <;> exact ⟨l, parsed⟩
  parent id := Node.wary_readLink ns id fun _ l parsed => ⟨l, parsed⟩
  component id i := Node.wary_read ns id fun _ => trivial
  root := wary_root ns
  size := wary_count (k := .size ns) rfl (fun _ n parsed => ⟨n, parsed⟩) id
  highWater := wary_count (k := .highWater ns) rfl (fun _ n parsed => ⟨n, parsed⟩) id
  freeCount := wary_count (k := .freeCount ns) rfl (fun _ n parsed => ⟨n, parsed⟩) id
  topId := IdPool.wary_topId ns
  put k _ _ value := wary_put k.text value

/-! ### Calls -/

variable {σ : Type} [ByteStore σ] {t : Tree} {view : StoreView σ} {n : Nat} {d : Dictionary}
  {f g : FieldStore σ} {D : Key → Prop}

/-- Take a tree that some run leads to, and make fields `D` of it unreadable, while nothing else is
in the cache than in the store. Every call that succeeded before gives the same as before, or it
reports one of the fields: the message of its error starts with the key of the field. -/
theorem damage_is_reported (h : Reachable t view n d f)
    (shows : g.Shows view (view.contents g.store))
    (damaged : Contents.Damaged D (view.contents f.store) (view.contents g.store)) (call : Call)
    (fits : call.Fits t) (few : n + call.inserts + 1 < Word.size64)
    (takes : view.TakesAll ((call.script t).writes (view.contents f.store))) :
    ∃ a f', FieldStore.perform (call.script t) f = .ok a f' ∧
      ((∃ g', FieldStore.perform (call.script t) g = .ok a g') ∨
        ∃ k damage rest g', D k ∧
          FieldStore.perform (call.script t) g = .error (.error (.corruption damage)) g' ∧
          damage.message = k.text ++ rest) := by
  obtain ⟨b, free, high, served⟩ := h.served (by omega)
  have issued := served.issued
  obtain ⟨c', run⟩ := served.stored.run_call fits (by omega)
  obtain ⟨f', performed, -⟩ := served.perform run takes
  obtain ⟨outcome, fewer⟩ := Wary.run_damaged ((wary t.ns).holds call) damaged
  obtain ⟨g', ends⟩ := FieldStore.perform_simulates shows fun w hw => takes w (fewer.subset hw)
  refine ⟨_, f', performed, ?_⟩
  rw [run] at outcome
  generalize (call.script t).run (view.contents g.store) = result at outcome ends
  cases outcome with
  | same same =>
    cases same with
    | ok a related => exact Or.inl ⟨g', ends.1⟩
  | @reported k damaged fault c =>
    exact Or.inr ⟨k, .value k.text fault, ": " ++ fault.message, g', damaged, ends.1,
      String.append_assoc⟩

/-- A root link that is no link: looking for the one key reports it. -/
theorem unreadable_root_is_reported :
    ∃ f g g' : FieldStore Memory, ∃ damage rest,
      Reachable ⟨1, [.asc], by simp⟩ Memory.view 1 [(["1"], "a")] f ∧
      Memory.view.contents g.store =
        (Memory.view.contents f.store).put (Key.root 1).text "nowhere" ∧
      FieldStore.perform (Tree.get ⟨1, [.asc], by simp⟩ ["1"]) g =
        .error (.error (.corruption damage)) g' ∧
      damage.message = (Key.root 1).text ++ rest := by
  have start := reachable_empty ⟨1, [.asc], by simp⟩
  have run := start.step (.insert ["1"] "a") rfl fun _ _ => trivial
  have left : Move.onDictionary ⟨1, [.asc], by simp⟩ [] (.insert ["1"] "a") = [(["1"], "a")] := by
    decide +kernel
  rw [left] at run
  have fails : (match FieldStore.perform (Tree.get ⟨1, [.asc], by simp⟩ ["1"])
      { store := (Move.apply ⟨1, [.asc], by simp⟩ { store := Memory.empty }
          (.insert ["1"] "a")).store.put (Key.root 1).text.toUTF8 "nowhere".toUTF8 } with
      | .ok _ _ => false
      | .error _ _ => true) = true := by
    decide +kernel
  generalize Move.apply ⟨1, [.asc], by simp⟩ { store := Memory.empty } (.insert ["1"] "a") = f
    at run fails
  obtain ⟨m, written, -, contents⟩ := Memory.view.write f.store (Key.root 1).text.toUTF8
    "nowhere".toUTF8 trivial trivial
  obtain rfl : f.store.put (Key.root 1).text.toUTF8 "nowhere".toUTF8 = m := by
    cases written
    rfl
  generalize f.store.put (Key.root 1).text.toUTF8 "nowhere".toUTF8 = m at contents fails
  have bad : ¬ (Key.root 1).Admits "nowhere" := by
    rintro ⟨link, parsed⟩
    have none : Link.parse? "nowhere" = none := by decide +kernel
    rw [none] at parsed
    cases parsed
  have damaged : Contents.Damaged (· = .root 1) (Memory.view.contents f.store)
      (Memory.view.contents m) := by
    rw [contents]
    exact Contents.damaged_put (D := (· = .root 1)) rfl bad _
  have shows : FieldStore.Shows Memory.view { store := m } (Memory.view.contents m) :=
    ⟨trivial, rfl, fun _ _ h => nomatch h⟩
  obtain ⟨a, -, -, ⟨g', performed⟩ | ⟨k, damage, rest, g', rfl, performed, message⟩⟩ :=
    damage_is_reported run shows damaged (.get ["1"]) rfl (by decide) fun _ _ => trivial
  · have answered : FieldStore.perform (Tree.get ⟨1, [.asc], by simp⟩ ["1"]) { store := m } =
        .ok a g' := performed
    rw [answered] at fails
    cases fails
  · exact ⟨f, { store := m }, g', damage, rest, run, contents, performed, message⟩

end Tree

end FlatStore
