import FlatStore.Proofs.Tree.Commit

/-! # Entries and the ids of their nodes

    Between two operations an entry does not wander: it stays with the id of
    its node, while rotations and unlinking change links and heights only.

    * **Insert**: a new key goes to a node of its own, and no entry that was
      there is written (`run_insert_absent`). A key that is there has just its
      payload written (`run_insert_there`).
    * **Delete**: one id goes back on top of the free ids. It is that of the
      key, or, where its node has two children, that of its successor, and then
      the successor's entry has moved (`Vacates`).
-/

namespace FlatStore.Tree

variable {t : Tree} {c : Contents} {b : Branch} {d : Dictionary} {lost free : List NodeId}
  {high : Nat} {key : List String}

/-! ### Inserts -/

/-- Attaching a leaf writes the entry of no other node. -/
theorem keepsEntry_of_attached {c' : Contents} {leaf id : NodeId} {p : Trail}
    (changes : Contents.Changes (IsAttached t.ns leaf (p.slot t.ns)) c c') (ne : id ≠ leaf) :
    Node.KeepsEntry t.ns id c c' := by
  refine Node.keepsEntry_of_changes changes fun g hg => ?_
  rintro (pool | ⟨g', own⟩ | slot | size)
  · exact IdPool.not_isPool_node _ _ _ _ pool
  · exact ne (Key.node.inj own).2.1
  · exact slot_ne_entry p hg slot
  · cases size

/-- A new key goes to a node of its own, and every entry that was there stays. -/
theorem StoredBeside.run_insert_absent (h : StoredBeside t c lost b d free high) (value : String)
    (arity : key.length = t.arity) (room : high + 1 < Word.size64)
    (absent : d.contains t.orders key = false) :
    ∃ c' leaf b' free' high', (t.insert key value).run c = .ok () c' ∧
      StoredBeside t c' lost b' (d.insert t.orders key value) free' high' ∧
      b'.ids.Perm (leaf :: b.ids) ∧ Node.Holds c' t.ns leaf (key, value) ∧
      ∀ id ∈ b.ids, Node.KeepsEntry t.ns id c c' := by
  obtain ⟨p, pre, post, placed, miss⟩ := h.run_place_absent arity (by rw [walkBound]; omega) absent
  obtain ⟨leaf, free', high', c₁, run₁, uneven, size, bound, new, holds, changes₁⟩ :=
    h.run_attach_new value miss placed arity room
  obtain ⟨_, c₂, ascends, focus, balanced, kept, changes₂⟩ := uneven.run_rebalanceFrom (by omega)
  have rebalanced : ∀ id, Node.KeepsEntry t.ns id c₁ c₂ := fun id =>
    Node.keepsEntry_of_changes changes₂ fun g hg => not_isShape_node hg
  refine ⟨c₂, leaf, p.climb (.single leaf), free', high', ?_, ⟨focus, balanced, kept, ?_⟩, ?_,
    (rebalanced leaf).holds holds, ?_⟩
  · rw [insert_eq, Script.run_bind_ok run₁, ascends.run]
  · rw [changes₂.count?_eq (not_isShape_size _ _ _), size]
  · rw [Trail.ids_climb, Trail.ids_close, miss.ids_eq, Branch.ids_single, List.append_assoc]
    exact List.perm_middle
  · intro id hid
    have other : id ≠ leaf := fun same => new (same ▸ hid)
    exact (keepsEntry_of_attached changes₁ other).trans (rebalanced id)

/-- The place of a key that is there is the node that holds it. -/
theorem StoredBeside.run_place_there (h : StoredBeside t c lost b d free high)
    (arity : key.length = t.arity) (small : high ≤ walkBound)
    (there : d.contains t.orders key = true) :
    ∃ target ∈ b.ids, t.HoldsKey c key target ∧
      (t.place key).run c = .ok (.found target) c := by
  obtain ⟨place, placed, located⟩ := h.run_place arity small
  cases located with
  | found hit =>
    obtain ⟨mem, holds⟩ := h.holdsKey hit
    exact ⟨_, mem, holds, placed⟩
  | missing miss =>
    rw [miss.split, miss.around.contains_absent] at there
    cases there

/-- Inserting a key that is there is one write, of the payload of its node. -/
theorem run_insert_there {target : NodeId} (arity : key.length = t.arity)
    (placed : (t.place key).run c = .ok (.found target) c) (value : String) :
    (t.insert key value).run c = .ok () (c.put (Key.node t.ns target .data).text value) ∧
      (t.insert key value).writes c = [((Key.node t.ns target .data).text, value)] := by
  have checks : (t.checkKey key).Asks (.space t.ns) := (asking t.ns).checkKey key
  have places : (t.place key).Asks (.space t.ns) := (asking t.ns).place key
  constructor
  · rw [insert, Script.run_bind_ok (run_checkKey c arity), Script.run_bind_ok placed]
    rfl
  · rw [insert, checks.writes_bind_ok (run_checkKey c arity), places.writes_bind_ok placed]
    rfl

/-! ### Along a run -/

variable {σ : Type} [ByteStore σ] {view : StoreView σ} {n : Nat} {f : FieldStore σ}

/-- In a tree that some run leads to, the nodes `b.ids` hold the entries. Inserting a new key adds
one node, and no component of a key and no payload of any other is changed. Inserting a key that is
there changes one field, the payload of its node. Deleting a key that is there takes one id out of
those of the nodes and puts it on top of the free ones; every other node keeps its entry, but for
the node of the key where that has two children: it then has the entry of the next node in order,
whose id is the one that goes (`Vacates`). -/
theorem entries_stay_at_their_ids (h : Reachable t view n d f) (few : n + 1 < Word.size64) :
    ∃ (b : Branch) (free : List NodeId) (high : Nat),
      SoundBeside t (view.contents f.store) [] b free high ∧
      Entries (view.contents f.store) t.ns b.ids d ∧
      (∀ key value, key.length = t.arity → d.contains t.orders key = false →
        n + 1 + 1 < Word.size64 →
        view.TakesAll ((t.insert key value).writes (view.contents f.store)) →
        ∃ (f' : FieldStore σ) (leaf : NodeId) (b' : Branch) (free' : List NodeId) (high' : Nat),
          FieldStore.perform (t.insert key value) f = .ok () f' ∧
          SoundBeside t (view.contents f'.store) [] b' free' high' ∧
          b'.ids.Perm (leaf :: b.ids) ∧
          Node.Holds (view.contents f'.store) t.ns leaf (key, value) ∧
          ∀ id ∈ b.ids,
            Node.KeepsEntry t.ns id (view.contents f.store) (view.contents f'.store)) ∧
      (∀ key value, key.length = t.arity → d.contains t.orders key = true →
        view.TakesAll ((t.insert key value).writes (view.contents f.store)) →
        ∃ (f' : FieldStore σ), ∃ target ∈ b.ids,
          FieldStore.perform (t.insert key value) f = .ok () f' ∧
          t.HoldsKey (view.contents f.store) key target ∧
          (t.insert key value).writes (view.contents f.store) =
            [((Key.node t.ns target .data).text, value)] ∧
          view.contents f'.store =
            (view.contents f.store).put (Key.node t.ns target .data).text value) ∧
      (∀ key, key.length = t.arity → d.contains t.orders key = true →
        view.TakesAll ((t.delete key).writes (view.contents f.store)) →
        ∃ (f' : FieldStore σ) (b' : Branch) (freed : NodeId), ∃ target ∈ b.ids,
          FieldStore.perform (t.delete key) f = .ok true f' ∧
          SoundBeside t (view.contents f'.store) [] b' (freed :: free) high ∧
          b.ids.Perm (freed :: b'.ids) ∧ t.HoldsKey (view.contents f.store) key target ∧
          Vacates t (view.contents f.store) (view.contents f'.store) b.ids target freed) := by
  obtain ⟨b, free, high, served⟩ := h.served few
  have issued := served.issued
  refine ⟨b, free, high, served.stored.sound, served.stored.kept.entries, ?_, ?_, ?_⟩
  · intro key value arity absent more takes
    obtain ⟨c', leaf, b', free', high', run, stored, ids, holds, keeps⟩ :=
      served.stored.run_insert_absent value arity (by omega) absent
    obtain ⟨f', performed, shows⟩ := served.perform run takes
    obtain rfl := shows.contents
    exact ⟨f', leaf, b', free', high', performed, stored.sound, ids, holds, keeps⟩
  · intro key value arity there takes
    obtain ⟨target, mem, holds, placed⟩ :=
      served.stored.run_place_there arity (by rw [walkBound]; omega) there
    obtain ⟨run, writes⟩ := run_insert_there arity placed value
    obtain ⟨f', performed, shows⟩ := served.perform run takes
    exact ⟨f', target, mem, performed, holds, writes, shows.contents⟩
  · intro key arity there takes
    obtain ⟨c', b', freed, run, stored, -, ids, target, mem, holds, vacates⟩ :=
      served.stored.run_delete_there arity (by omega) there
    obtain ⟨f', performed, shows⟩ := served.perform run takes
    obtain rfl := shows.contents
    exact ⟨f', b', freed, target, mem, performed, stored.sound, ids, holds, vacates⟩

/-- Of the nodes 1, 2 and 3 with these keys the root 2 is deleted: it lives on with the entry of the
greatest key, and the id of that one's node goes back. -/
theorem successor_moves_into_root :
    ∃ (f f' : FieldStore Memory) (b' : Branch),
      Reachable ⟨1, [.asc], by simp⟩ Memory.view 3 [(["1"], "a"), (["2"], "b"), (["3"], "c")] f ∧
      FieldStore.perform (Tree.delete ⟨1, [.asc], by simp⟩ ["2"]) f = .ok true f' ∧
      SoundBeside ⟨1, [.asc], by simp⟩ (Memory.view.contents f'.store) [] b' [3] 3 ∧
      ∃ e, e.1.length = 1 ∧ Node.Holds (Memory.view.contents f.store) 1 3 e ∧
        Node.Holds (Memory.view.contents f'.store) 1 2 e := by
  have start := reachable_empty ⟨1, [.asc], by simp⟩
  have run := ((start.step (.insert ["1"] "a") rfl fun _ _ => trivial).step
    (.insert ["2"] "b") rfl fun _ _ => trivial).step (.insert ["3"] "c") rfl fun _ _ => trivial
  have made : Move.onDictionary ⟨1, [.asc], by simp⟩ (Move.onDictionary ⟨1, [.asc], by simp⟩
      (Move.onDictionary ⟨1, [.asc], by simp⟩ [] (.insert ["1"] "a")) (.insert ["2"] "b"))
      (.insert ["3"] "c") = [(["1"], "a"), (["2"], "b"), (["3"], "c")] := by
    decide +kernel
  rw [made] at run
  set f : FieldStore Memory := Move.apply ⟨1, [.asc], by simp⟩
    (Move.apply ⟨1, [.asc], by simp⟩
      (Move.apply ⟨1, [.asc], by simp⟩ { store := Memory.empty } (.insert ["1"] "a"))
      (.insert ["2"] "b")) (.insert ["3"] "c")
  obtain ⟨b, free, high, sound, entries, -, -, deletes⟩ := entries_stay_at_their_ids run (by decide)
  obtain ⟨f', b', freed, target, mem, performed, sound', -, ⟨e, holds, arity, equal⟩, vacates⟩ :=
    deletes ["2"] rfl (by decide +kernel) fun _ _ => trivial
  have issued : (Memory.view.contents f.store).count? (.highWater 1) = some 3 := by decide +kernel
  have unused : (Memory.view.contents f.store).count? (.freeCount 1) = some 0 := by decide +kernel
  obtain rfl : high = 3 := Option.some.inj (sound.pool.highWater.symm.trans issued)
  obtain rfl : free = [] :=
    List.length_eq_zero_iff.1 (Option.some.inj (sound.pool.freeCount.symm.trans unused))
  -- The ids are those of the inserts, so each node has its id for a key.
  have texts : ∀ id ∈ [1, 2, 3], (Memory.view.contents f.store).text? (.node 1 id (.component 0)) =
      some (toString id) := by
    decide +kernel
  have named : ∀ id ∈ b.ids, ∀ e : List String × String, e.1.length = 1 →
      Node.Holds (Memory.view.contents f.store) 1 id e → id ∈ [1, 2, 3] ∧ e.1 = [toString id] := by
    intro id hid e arity holds
    have mem : id ∈ [1, 2, 3] := sound.issued.mem_iff.1 (by simp [hid])
    obtain ⟨k, he⟩ := List.length_eq_one_iff.1 arity
    have first := holds.component 0 (by simp [he])
    simp only [he, List.getElem_cons_zero, texts id mem] at first
    exact ⟨mem, by rw [he, Option.some.inj first]⟩
  have order : b.ids = [1, 2, 3] := by
    have only : ∀ n ∈ [1, 2, 3], ∀ id ∈ [1, 2, 3], [toString n] = [toString id] → id = n := by
      decide +kernel
    obtain ⟨x, y, z, hids⟩ := List.length_eq_three.1 entries.length_eq
    rw [hids] at entries
    rcases entries with _ | ⟨hx, _ | ⟨hy, _ | ⟨hz, -⟩⟩⟩
    obtain ⟨mx, ex⟩ := named x (by simp [hids]) _ rfl hx
    obtain ⟨my, ey⟩ := named y (by simp [hids]) _ rfl hy
    obtain ⟨mz, ez⟩ := named z (by simp [hids]) _ rfl hz
    rw [hids, only 1 (by simp) x mx ex, only 2 (by simp) y my ey, only 3 (by simp) z mz ez]
  obtain rfl : target = 2 := by
    have only : ∀ id ∈ [1, 2, 3],
        KeyOrder.compareKeys [.asc] ["2"] [toString id] = .eq → id = 2 := by
      decide +kernel
    obtain ⟨place, he⟩ := named target mem e arity holds
    exact only target place (he ▸ equal)
  obtain ⟨next, moved⟩ := vacates.successor fun side => by
    cases side with
    | left => exact ⟨1, by decide +kernel⟩
    | right => exact ⟨3, by decide +kernel⟩
  obtain rfl : freed = 3 := by
    rw [order] at next
    simpa [List.infix_cons_iff] using next
  exact ⟨f, f', b', run, performed, sound', moved⟩

end FlatStore.Tree
