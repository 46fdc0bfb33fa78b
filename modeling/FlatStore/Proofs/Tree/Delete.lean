import FlatStore.Proofs.Tree.Insert

/-! # Deleting

    Deleting a key does to the stored dictionary what `Dictionary.erase` does,
    and keeps the invariant of the tree. The node that is taken out has at most
    one child: it is the node of the key, or else the leftmost node on its
    right, whose entry is copied over first (`run_vacate`). Its id goes back to
    the pool (`run_unlink`), and the way up is rebalanced. What is done up to
    that walk is `extract`.
-/

namespace FlatStore.Tree

variable {t : Tree} {c : Contents} {b : Branch} {d : Dictionary} {lost free : List NodeId}
  {high : Nat} {key : List String}

/-! ### The successor -/

/-- The walk to the left ends at a node without a left child, with nothing before it. -/
theorem run_leftmost {ns : FileId} {ids : List NodeId} (bound : Nat) {p : Trail} {l r : Branch}
    {f : Fork} (h : Focus c ns ids p (.node l f r))
    (enough : (Branch.node l f r).ids.length ≤ bound) :
    ∃ q s sr, (leftmost ns bound f.id).run c = .ok s.id c ∧
      Focus c ns ids (q ++ p) (.node .leaf s sr) ∧
      Trail.close q (.node .leaf s sr) = .node l f r ∧ Trail.before q = [] := by
  induction l generalizing p f r bound with
  | leaf =>
    obtain ⟨bound, rfl⟩ : ∃ n, bound = n + 1 := ⟨bound - 1, by simp at enough; omega⟩
    obtain ⟨-, -, hleft, -⟩ := h.branch
    refine ⟨[], f, r, ?_, h, rfl, rfl⟩
    rw [leftmost, Script.run_bind_ok (Node.run_child .left hleft)]
    rfl
  | node ll g lr ih =>
    obtain ⟨bound, rfl⟩ : ∃ n, bound = n + 1 := ⟨bound - 1, by simp at enough; omega⟩
    obtain ⟨-, -, hleft, -⟩ := h.branch
    have below : Focus c ns ids (⟨.left, f, r⟩ :: p) (.node ll g lr) := Focus.cons_iff.2 h
    obtain ⟨q, s, sr, run, focus, close, before⟩ :=
      ih bound below (by simp at enough ⊢; omega)
    refine ⟨q ++ [⟨.left, f, r⟩], s, sr, ?_, ?_, ?_, ?_⟩
    · rw [leftmost, Script.run_bind_ok (Node.run_child .left hleft)]
      exact run
    · rwa [List.append_assoc, List.singleton_append]
    · rw [Trail.close_append, close]
      rfl
    · rw [Trail.before_append, before]
      rfl

/-! ### Taking a node out -/

/-- Taking out a node with at most one child, up to the walk that follows it: gives the node to
rebalance from. -/
def unlink (ns : FileId) (id : NodeId) : Script Link := do
  let left ← Node.child ns .left id
  let child ← match left with
    | some left => pure (some left)
    | none => Node.child ns .right id
  let parent ← Node.parent ns id
  Node.adopt ns child parent
  replaceChild ns parent id child
  IdPool.free ns id
  return parent

theorem splice_eq (ns : FileId) (id : NodeId) :
    splice ns id = unlink ns id >>= rebalanceFrom ns := by
  simp only [splice, unlink, bind_assoc]
  refine bind_congr fun left => ?_
  cases left with
  | some left =>
    simp only [pure_bind, bind_assoc]
    refine bind_congr fun parent => ?_
    rfl
  | none =>
    simp only [bind_assoc, pure_bind]
    refine bind_congr fun child => bind_congr fun parent => ?_
    cases child <;> rfl

/-- The one child of a node takes its place. -/
theorem run_detach {ns : FileId} {ids : List NodeId} {p : Trail} {side : Side} {f : Fork}
    {rest : Branch} (h : Focus c ns ids p (.join side .leaf f rest)) :
    ∃ c', (do Node.adopt ns rest.link p.parent; replaceChild ns p.parent f.id rest.link :
        Script Unit).run c = .ok () c' ∧
      Focus c' ns (p.close rest).ids p rest ∧ Contents.Changes (IsShape ns ids) c c' := by
  obtain ⟨-, -, -, -, -, hrest⟩ := Branch.storedIn_join.1 h.branch
  have hp := h.trail
  rw [Branch.link_join] at hp
  obtain ⟨nodup_b, nodup_p, apart⟩ := Trail.nodup_ids_close.1 h.nodup_close
  obtain ⟨-, nodup_r, -, -, -⟩ := (Branch.nodup_ids_join _).1 nodup_b
  have in_branch : ∀ id ∈ rest.ids, id ∈ (Branch.join side .leaf f rest).ids :=
    fun id hid => Branch.mem_ids_join.2 (Or.inr (Or.inr hid))
  have changes₁ : Contents.Changes (IsParentOf ns rest.link) c
      (c.adopted ns rest.link p.parent) := Contents.changes_adopted c ns rest.link p.parent
  have shaped : ∀ k, IsParentOf ns rest.link k → IsShape ns ids k := by
    rintro k ⟨id, hid, rfl⟩
    have mem := in_branch id (Branch.link_mem_ids hid)
    exact Or.inr ⟨id, h.mem_iff.2 (Or.inl mem), .parent, trivial, rfl⟩
  have hrest₁ : rest.StoredIn (c.adopted ns rest.link p.parent) ns p.parent := by
    refine hrest.reparent nodup_r changes₁ ?_ fun id hid => Contents.link?_adopted hid hp.fits
    rintro id - g - ⟨id', hid', he⟩
    obtain ⟨-, rfl, rfl⟩ := Key.node.inj he
    exact ⟨hid', rfl⟩
  have hp₁ : p.StoredIn (c.adopted ns rest.link p.parent) ns (some f.id) := by
    refine hp.frame changes₁ ?_ ?_
    · rintro id hid g - ⟨id', hid', he⟩
      obtain ⟨-, rfl, -⟩ := Key.node.inj he
      exact apart (in_branch _ (Branch.link_mem_ids hid')) hid
    · rintro ⟨id, -, he⟩
      cases he
  have away : f.id ∉ p.ids := fun hid => apart (Branch.mem_ids_join.2 (Or.inl rfl)) hid
  refine ⟨_, ?_, Focus.graft hp₁ hrest₁ ?_, (changes₁.mono shaped).put h.isShape_slot _⟩
  · rw [Script.run_bind_ok (Node.run_adopt c ns rest.link p.parent)]
    exact run_replaceChild hp₁ away
  · exact Trail.nodup_ids_close.2 ⟨nodup_r, nodup_p, fun id hid => apart (in_branch id hid)⟩

/-- The child that is left when a node without a child on a side is taken out. -/
theorem run_onlyChild {ns : FileId} {parent : Link} {side : Side} {f : Fork} {rest : Branch}
    (h : (Branch.join side .leaf f rest).StoredIn c ns parent) {α : Type}
    (next : Link → Script α) :
    (do let left ← Node.child ns .left f.id
        let child ← match left with
          | some left => pure (some left)
          | none => Node.child ns .right f.id
        next child : Script α).run c = (next rest.link).run c := by
  cases side with
  | left =>
    obtain ⟨-, -, hleft, hright, -, -⟩ := h
    rw [Script.run_bind_ok (Node.run_child .left hleft)]
    exact Script.run_bind_ok (Node.run_child .right hright)
  | right =>
    obtain ⟨-, -, hleft, hright, -, -⟩ := h
    rw [Script.run_bind_ok (Node.run_child .left hleft)]
    cases rest with
    | leaf => exact Script.run_bind_ok (Node.run_child .right hright)
    | node => rfl

/-- Taking out a node takes out its id, and no other. -/
theorem Trail.perm_close_join (p : Trail) (side : Side) (f : Fork) (rest : Branch) :
    (p.close (.join side .leaf f rest)).ids.Perm (f.id :: (p.close rest).ids) := by
  rw [Trail.ids_close, Trail.ids_close]
  cases side with
  | left => simp [Branch.join]
  | right =>
    have := @List.perm_middle _ f.id (p.before ++ rest.ids) p.after
    simpa [Branch.join] using this

/-- A node with at most one child is taken out of a balanced tree, and its id is given back. What is
left holds the entries `d`. -/
theorem run_unlink {p : Trail} {side : Side} {f : Fork} {rest : Branch}
    (h : Focus c t.ns b.ids p (.join side .leaf f rest))
    (close : p.close (.join side .leaf f rest) = b) (balanced : b.Balanced)
    (entries : Entries c t.ns (p.before ++ rest.ids ++ p.after) d) (sorted : d.Sorted t.orders)
    (pool : IdPool.StoredIn c t.ns free high) (covers : IdPool.Covers (lost ++ b.ids) free high)
    (small : high < Word.size64) :
    ∃ c', (unlink t.ns f.id).run c = .ok p.parent c' ∧
      Uneven t c' lost p rest d (f.id :: free) high ∧
      Contents.Changes (fun k => IsShape t.ns b.ids k ∨ IdPool.IsPool t.ns k) c c' := by
  obtain ⟨c₁, run₁, focus₁, changes₁⟩ := run_detach h
  have taken : b.ids.Perm (f.id :: (p.close rest).ids) :=
    close ▸ Trail.perm_close_join p side f rest
  have nodes := taken.length_eq
  have count := covers.length
  rw [List.length_append] at count
  rw [List.length_cons] at nodes
  -- The id of the node goes back to the pool.
  have pool₁ := pool.frame changes₁ fun k hk hp => not_isShape_of_isPool hp hk
  have fits : f.id < Word.size64 := (Branch.storedIn_join.1 h.branch).1.id_lt
  obtain ⟨c₂, run₂, pool₂, changes₂⟩ := IdPool.run_free pool₁ fits (by omega)
  have focus₂ := focus₁.frame changes₂ fun k hk => not_isShape_of_isPool hk
  -- What is left below the node is one level lower than it.
  obtain ⟨hjoin, steady⟩ := Trail.steady_of_balanced (close.symm ▸ balanced)
  obtain ⟨-, hrest, height, -, -⟩ := hjoin.of_join
  have := Branch.neg_one_le_height hrest
  rw [Branch.height_leaf] at height
  rw [Branch.height_join] at steady
  have entries₂ : Entries c₂ t.ns (p.close rest).ids d := by
    rw [Trail.ids_close]
    exact (entries.frame changes₁ fun id _ g hg => not_isShape_node hg).frame changes₂ (by simp)
  refine ⟨c₂, ?_, ⟨focus₂, hrest, ⟨_, steady, by omega, by omega⟩, ⟨entries₂, sorted, pool₂,
    covers.release ((taken.append_left lost).trans List.perm_middle)⟩⟩, ?_⟩
  · have start := run_onlyChild h.branch fun child => do
      let parent ← Node.parent t.ns f.id
      Node.adopt t.ns child parent
      replaceChild t.ns parent f.id child
      IdPool.free t.ns f.id
      return parent
    rw [unlink, start, Script.run_bind_ok (h.run_parent (Branch.link_join _ _ _ _)),
      ← bind_assoc, Script.run_bind_ok run₁, Script.run_bind_ok run₂]
    rfl
  · exact (changes₁.mono fun _ => Or.inl).trans (changes₂.mono fun _ => Or.inr)

/-! ### Making room -/

/-- The node `freed` is the one to take out so that the entry of `target` is gone. That is the
target itself where it has no child on a side; where it has two, it is the node behind it in the
order of the nodes `ids`, and the target has that one's entry. No other entry was changed. -/
structure Vacates (t : Tree) (c c' : Contents) (ids : List NodeId) (target freed : NodeId) :
    Prop where
  others : ∀ id, id ≠ target → Node.KeepsEntry t.ns id c c'
  itself : ∀ side : Side, c.link? (.node t.ns target side.field) = some none → freed = target
  successor : (∀ side : Side, ∃ child, c.link? (.node t.ns target side.field) = some (some child)) →
    [target, freed] <:+: ids ∧ ∃ e : List String × String, e.1.length = t.arity ∧
      Node.Holds c t.ns freed e ∧ Node.Holds c' t.ns target e

/-- With a child missing there is nothing to be moved. -/
theorem vacates_itself {ids : List NodeId} {target : NodeId} (side : Side)
    (missing : c.link? (.node t.ns target side.field) = some none) :
    Vacates t c c ids target target where
  others id _ := .refl t.ns id c
  itself _ _ := rfl
  successor both := by
    obtain ⟨child, there⟩ := both side
    rw [missing] at there
    cases there

/-- Writes outside of all entries do not matter. -/
theorem Vacates.trans {c₁ c₂ : Contents} {ids : List NodeId} {target freed : NodeId}
    (h : Vacates t c c₁ ids target freed) (keeps : ∀ id, Node.KeepsEntry t.ns id c₁ c₂) :
    Vacates t c c₂ ids target freed where
  others id ne := (h.others id ne).trans (keeps id)
  itself := h.itself
  successor both := by
    obtain ⟨next, e, arity, before, behind⟩ := h.successor both
    exact ⟨next, e, arity, before, (keeps target).holds behind⟩

/-- A node without a child on a side can be taken out itself. -/
theorem run_vacate_of_leaf {parent : Link} {side : Side} {f : Fork} {rest : Branch}
    (h : (Branch.join side .leaf f rest).StoredIn c t.ns parent) :
    (t.vacate f.id).run c = .ok f.id c := by
  cases side with
  | left =>
    obtain ⟨-, -, hleft, hright, -, -⟩ := h
    rw [vacate, Script.run_bind_ok (Node.run_child .left hleft),
      Script.run_bind_ok (Node.run_child .right hright)]
    rfl
  | right =>
    obtain ⟨-, -, hleft, hright, -, -⟩ := h
    rw [vacate, Script.run_bind_ok (Node.run_child .left hleft),
      Script.run_bind_ok (Node.run_child .right hright)]
    cases rest with
    | leaf => rfl
    | node => rfl

/-- The entry of the successor takes the place of the one that goes. -/
theorem StoredBeside.run_vacate_of_both (h : StoredBeside t c lost b d free high) {p : Trail}
    {ll lr rl rr : Branch} {lf rf f : Fork} {pre post : Dictionary} {e : List String × String}
    (hit : Hit t c b d key p (.node ll lf lr) f (.node rl rf rr) pre e post)
    (small : high ≤ walkBound) :
    ∃ q s rest c', (t.vacate f.id).run c = .ok s.id c' ∧
      Focus c' t.ns b.ids q (.node .leaf s rest) ∧ q.close (.node .leaf s rest) = b ∧
      Entries c' t.ns (q.before ++ rest.ids ++ q.after) (pre ++ post) ∧
      Contents.Changes (Node.IsEntry t.ns f.id) c c' ∧ Vacates t c c' b.ids f.id s.id := by
  obtain ⟨-, -, hleft, hright, -, -⟩ := hit.focus.branch
  have right : Focus c t.ns b.ids (⟨.right, f, .node ll lf lr⟩ :: p) (.node rl rf rr) :=
    Focus.cons_iff.2 hit.focus
  have shorter : (Branch.node rl rf rr).ids.length ≤ b.ids.length :=
    (right.nodup_branch.subperm fun id hid => right.mem_iff.2 (Or.inl hid)).length_le
  have nodes := h.kept.length_le
  obtain ⟨q, s, rest, run, focus, close, before⟩ := run_leftmost walkBound right (by omega)
  -- The successor comes first among the nodes on the right, and so does its entry.
  have ids : (Branch.node rl rf rr).ids = s.id :: (rest.ids ++ q.after) := by
    rw [← close, Trail.ids_close, before]
    simp
  have other : s.id ≠ f.id := fun he => right.disjoint (ids ▸ List.mem_cons_self) (he ▸ by simp)
  have after := hit.after
  rw [ids, List.cons_append] at after
  obtain ⟨es, post', rfl, holds, -⟩ := after.of_cons
  have arity : es.1.length = t.arity := h.kept.sorted.arity es (by simp [hit.split])
  obtain ⟨c', copy, holds', changes⟩ := Node.run_copyEntry holds other
  obtain ⟨before', after'⟩ := hit.entries_around changes
  rw [ids, List.cons_append] at after'
  obtain ⟨_, _, same, -, after'⟩ := after'.of_cons
  obtain ⟨rfl, rfl⟩ := List.cons.inj same
  refine ⟨q ++ ⟨.right, f, .node ll lf lr⟩ :: p, s, rest, c', ?_,
    focus.frame changes fun k hk => not_isShape_of_isEntry hk, ?_, ?_, changes, ?_, ?_, ?_⟩
  · rw [vacate, Script.run_bind_ok (Node.run_child .left hleft),
      Script.run_bind_ok (Node.run_child .right hright)]
    simp only [Branch.link_node]
    rw [← arity, Script.run_bind_ok run, Script.run_bind_ok copy]
    rfl
  · rw [Trail.close_append, close]
    exact hit.close
  · have entries := (before'.append (.cons holds' .nil)).append after'
    rw [Trail.before_append, Trail.after_append, before]
    simpa [Trail.before, Trail.after, Turn.before, Turn.after] using entries
  · exact fun id ne => Node.keepsEntry_of_changes changes fun g _ => Node.not_isEntry_of_ne ne g
  · -- Both children are there.
    intro side missing
    cases side with
    | left => cases hleft.symm.trans missing
    | right => cases hright.symm.trans missing
  · intro _
    refine ⟨⟨p.before ++ (Branch.node ll lf lr).ids, rest.ids ++ q.after ++ p.after, ?_⟩, es, arity,
      holds, holds'⟩
    rw [← hit.close, Trail.ids_close, Branch.ids_node _ _ (.node rl rf rr), ids]
    simp

/-- After it, taking out the node it gives leaves all entries but the one that was hit. -/
theorem StoredBeside.run_vacate (h : StoredBeside t c lost b d free high) {p : Trail}
    {l r : Branch} {f : Fork} {pre post : Dictionary} {e : List String × String}
    (hit : Hit t c b d key p l f r pre e post) (small : high ≤ walkBound) :
    ∃ q side s rest c', (t.vacate f.id).run c = .ok s.id c' ∧
      Focus c' t.ns b.ids q (.join side .leaf s rest) ∧ q.close (.join side .leaf s rest) = b ∧
      Entries c' t.ns (q.before ++ rest.ids ++ q.after) (pre ++ post) ∧
      Contents.Changes (Node.IsEntry t.ns f.id) c c' ∧ Vacates t c c' b.ids f.id s.id := by
  obtain ⟨-, -, hleft, hright, -, -⟩ := hit.focus.branch
  have entries := hit.before.append hit.after
  cases l with
  | leaf =>
    have branch : (Branch.join .left .leaf f r).StoredIn c t.ns p.parent := hit.focus.branch
    refine ⟨p, .left, f, r, c, run_vacate_of_leaf branch, hit.focus, hit.close, ?_, .refl _ c,
      vacates_itself .left hleft⟩
    simpa using entries
  | node ll lf lr =>
    cases r with
    | leaf =>
      have branch : (Branch.join .right .leaf f (.node ll lf lr)).StoredIn c t.ns p.parent :=
        hit.focus.branch
      refine ⟨p, .right, f, .node ll lf lr, c, run_vacate_of_leaf branch, hit.focus, hit.close, ?_,
        .refl _ c, vacates_itself .right hright⟩
      simpa using entries
    | node rl rf rr =>
      obtain ⟨q, s, rest, c', run, focus, close, entries', changes, vacates⟩ :=
        h.run_vacate_of_both hit small
      exact ⟨q, .left, s, rest, c', run, focus, close, entries', changes, vacates⟩

/-! ### Extracting -/

/-- Deleting up to the walk that follows it: gives the node to rebalance from, if the key is
there. -/
def extract (t : Tree) (key : List String) : Script (Option Link) := do
  t.checkKey key
  match ← t.find key with
  | none => return none
  | some target => return some (← unlink t.ns (← t.vacate target))

/-- Deleting is extracting, the walk up from there, and counting one entry less. -/
theorem delete_eq (t : Tree) (key : List String) :
    t.delete key = (do
      match ← t.extract key with
      | none => return false
      | some start =>
        rebalanceFrom t.ns start
        setSize t.ns ((← size t.ns) - 1)
        return true) := by
  simp only [delete, extract, bind_assoc, splice_eq]
  refine bind_congr fun _ => bind_congr fun target => ?_
  cases target with
  | none => rfl
  | some target => simp

/-- A key that is not there has nothing to be extracted. -/
theorem StoredBeside.run_extract_absent (h : StoredBeside t c lost b d free high)
    (arity : key.length = t.arity) (small : high ≤ walkBound)
    (absent : d.contains t.orders key = false) : (t.extract key).run c = .ok none c := by
  rw [extract, Script.run_bind_ok (run_checkKey c arity)]
  rcases h.run_find arity small with
    ⟨p, l, f, r, pre, e, post, run, hit⟩ | ⟨p, pre, post, run, miss⟩
  · have there : d.contains t.orders key = true := by
      rw [hit.split, Dictionary.Around.contains_found hit.equal]
    exact absurd there (by simp [absent])
  · rw [Script.run_bind_ok run]
    rfl

/-- A node holds a key that compares equal. -/
def HoldsKey (t : Tree) (c : Contents) (key : List String) (id : NodeId) : Prop :=
  ∃ e : List String × String, Node.Holds c t.ns id e ∧ e.1.length = t.arity ∧
    KeyOrder.compareKeys t.orders key e.1 = .eq

theorem StoredBeside.holdsKey (h : StoredBeside t c lost b d free high) {p : Trail}
    {l r : Branch} {f : Fork} {pre post : Dictionary} {e : List String × String}
    (hit : Hit t c b d key p l f r pre e post) : f.id ∈ b.ids ∧ t.HoldsKey c key f.id :=
  ⟨hit.focus.mem_iff.2 (Or.inl (by simp)), e, hit.here,
    h.kept.sorted.arity e (by simp [hit.split]), hit.equal⟩

/-- A key that is there is extracted with its entry, and one node is given back; the entry is still
counted. -/
theorem StoredBeside.run_extract (h : StoredBeside t c lost b d free high)
    (arity : key.length = t.arity) (small : high < Word.size64)
    (there : d.contains t.orders key = true) :
    ∃ p b' freed c', (t.extract key).run c = .ok (some (Trail.parent p)) c' ∧
      Uneven t c' lost p b' (d.erase t.orders key) (freed :: free) high ∧
      c'.count? (.size t.ns) = some d.length ∧ (d.erase t.orders key).length = d.length - 1 ∧
      Contents.Changes (IsOwned t.ns) c c' ∧ b.ids.Perm (freed :: (p.close b').ids) ∧
      ∃ target ∈ b.ids, t.HoldsKey c key target ∧ Vacates t c c' b.ids target freed := by
  have bound : high ≤ walkBound := by rw [walkBound]; omega
  rcases h.run_find arity bound with
    ⟨p, l, f, r, pre, e, post, run, hit⟩ | ⟨p, pre, post, run, miss⟩
  · obtain ⟨q, side, s, rest, c₁, run₁, focus₁, close, entries₁, changes₁, vacates⟩ :=
      h.run_vacate hit bound
    have erased : d.erase t.orders key = pre ++ post := by
      rw [hit.split, hit.around.erase_found hit.equal]
    have pool₁ := h.kept.pool.frame changes₁ fun k hk => not_isPool_of_isEntry hk
    have sorted : (pre ++ post).Sorted t.orders := h.kept.sorted.sublist (hit.split ▸ by simp)
    obtain ⟨c₂, run₂, uneven, changes₂⟩ :=
      run_unlink focus₁ close h.balanced entries₁ sorted pool₁ h.kept.covers small
    obtain ⟨mem, holds⟩ := h.holdsKey hit
    refine ⟨q, rest, s.id, c₂, ?_, erased ▸ uneven, ?_, ?_, ?_,
      close ▸ Trail.perm_close_join q side s rest, f.id, mem, holds, vacates.trans fun id => ?_⟩
    · rw [extract, Script.run_bind_ok (run_checkKey c arity), Script.run_bind_ok run]
      simp only
      rw [Script.run_bind_ok run₁, Script.run_bind_ok run₂]
      rfl
    · rw [changes₂.count?_eq ?_, changes₁.count?_eq ?_, h.size]
      · rintro ⟨g, -, he⟩
        cases he
      · exact fun hk => hk.elim (not_isShape_size _ _ _) (IdPool.not_isPool_size _ _)
    · rw [erased, hit.split]
      simp
    · exact (changes₁.mono fun k hk => isOwned_of_isEntry hk).trans
        (changes₂.mono fun k hk => hk.elim isOwned_of_isShape isOwned_of_isPool)
    · exact Node.keepsEntry_of_changes changes₂ fun g hg hk =>
        hk.elim (not_isShape_node hg) (IdPool.not_isPool_node _ _ _ _)
  · have absent : d.contains t.orders key = false := by
      rw [miss.split, miss.around.contains_absent]
    exact absurd there (by simp [absent])

/-! ### Deleting -/

/-- Deleting a key that is not there changes nothing. -/
theorem StoredBeside.run_delete_absent (h : StoredBeside t c lost b d free high)
    (arity : key.length = t.arity) (small : high ≤ walkBound)
    (absent : d.contains t.orders key = false) : (t.delete key).run c = .ok false c := by
  rw [delete_eq, Script.run_bind_ok (h.run_extract_absent arity small absent)]
  rfl

/-- Deleting a key that is there takes out its entry, and gives one node back to the pool. -/
theorem StoredBeside.run_delete_there (h : StoredBeside t c lost b d free high)
    (arity : key.length = t.arity) (small : high < Word.size64)
    (there : d.contains t.orders key = true) :
    ∃ c' b' freed, (t.delete key).run c = .ok true c' ∧
      StoredBeside t c' lost b' (d.erase t.orders key) (freed :: free) high ∧
      Contents.Changes (IsOwned t.ns) c c' ∧ b.ids.Perm (freed :: b'.ids) ∧
      ∃ target ∈ b.ids, t.HoldsKey c key target ∧ Vacates t c c' b.ids target freed := by
  obtain ⟨p, b', freed, c₁, run₁, uneven, size₁, length, changes₁, given, target, mem, holds,
    vacates⟩ := h.run_extract arity small there
  obtain ⟨_, c₂, ascends, focus₂, balanced₂, kept₂, changes₂⟩ := uneven.run_rebalanceFrom small
  have size₂ : (Tree.size t.ns).run c₂ = .ok d.length c₂ := by
    refine Script.run_count ?_
    rw [changes₂.count?_eq (not_isShape_size _ _ _), size₁]
  have fewer : d.length ≤ high := by
    have := h.kept.length_le
    have := h.kept.entries.length_eq
    omega
  have counted := Contents.Changes.single c₂ (.size t.ns) (toString (d.length - 1))
  refine ⟨c₂.put (Key.size t.ns).text (toString (d.length - 1)), p.climb b', freed, ?_,
    ⟨focus₂.put_size _, balanced₂, kept₂.put_size _, ?_⟩, ?_, ?_, target, mem, holds,
    vacates.trans fun id => ?_⟩
  · rw [delete_eq, Script.run_bind_ok run₁]
    simp only
    rw [Script.run_bind_ok ascends.run, Script.run_bind_ok size₂]
    rfl
  · rw [length]
    exact Contents.count?_put_self c₂ (by simp) (by omega)
  · have rebalanced := changes₂.mono fun k hk => isOwned_of_isShape hk
    exact (changes₁.trans rebalanced).put (isOwned_size t.ns) _
  · rw [Trail.ids_climb]
    exact given
  · -- The walk writes the shape only, and then the size is written.
    exact (Node.keepsEntry_of_changes changes₂ fun g hg => not_isShape_node hg).trans
      (Node.keepsEntry_of_changes counted (by simp))

/-- Deleting does to the tree what it does to its dictionary, and says whether the key was there. -/
theorem StoredBeside.run_delete (h : StoredBeside t c lost b d free high)
    (arity : key.length = t.arity) (small : high < Word.size64) :
    ∃ c' b' free', (t.delete key).run c = .ok (d.contains t.orders key) c' ∧
      StoredBeside t c' lost b' (d.erase t.orders key) free' high ∧
      Contents.Changes (IsOwned t.ns) c c' := by
  cases there : d.contains t.orders key with
  | false =>
    have same : d.erase t.orders key = d := Dictionary.erase_of_not_contains there
    exact ⟨c, b, free, h.run_delete_absent arity (by rw [walkBound]; omega) there,
      same.symm ▸ h, .refl _ c⟩
  | true =>
    obtain ⟨c', b', freed, run, stored, changes, -⟩ := h.run_delete_there arity small there
    exact ⟨c', b', freed :: free, run, stored, changes⟩

end FlatStore.Tree
