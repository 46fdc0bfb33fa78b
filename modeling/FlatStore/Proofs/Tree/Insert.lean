import FlatStore.Proofs.Tree.Climb
import FlatStore.Proofs.Tree.Stored

/-! # Inserting

    Inserting a key does to the stored dictionary what `Dictionary.insert`
    does, and keeps the invariant of the tree. It falls into two parts
    (`insert_eq`).

    * `attach`: a key that is there only gets the payload. A new key gets a
      fresh leaf at its place, and the size counts it. The leaf is of no use
      until it is linked, so up to then the tree is what it was, but for an id
      that is lost to it (`run_issue`, `frame_lost`).
    * The walk up rebalances a tree that is balanced but for the one branch
      that it starts from (`Uneven`).
-/

namespace FlatStore

/-- The single node `id`. -/
def Branch.single (id : NodeId) : Branch := .node .leaf ⟨id, 0, 0⟩ .leaf

namespace Branch

@[simp]
theorem link_single (id : NodeId) : (single id).link = some id := rfl

@[simp]
theorem height_single (id : NodeId) : (single id).height = 0 := rfl

@[simp]
theorem ids_single (id : NodeId) : (single id).ids = [id] := rfl

theorem balanced_single (id : NodeId) : (single id).Balanced := by
  simp [single, Balanced, Fork.over]

end Branch

namespace Tree

variable {t : Tree} {c c' : Contents} {b : Branch} {d : Dictionary} {lost free : List NodeId}
  {high : Nat} {key : List String} {value : String} {p : Trail}

/-! ### Before the walk -/

/-- A stored tree that has yet to be rebalanced: the branch at the end of a trail is balanced, and
at most one level off from what the trail was balanced around. -/
structure Uneven (t : Tree) (c : Contents) (lost : List NodeId) (p : Trail) (b : Branch)
    (d : Dictionary) (free : List NodeId) (high : Nat) : Prop where
  focus : Focus c t.ns (p.close b).ids p b
  balanced : b.Balanced
  level : ∃ level, p.Steady level ∧ level - 1 ≤ b.height ∧ b.height ≤ level + 1
  kept : Kept t c lost (p.close b).ids d free high

/-- A tree that is balanced as a whole is nothing but what its root leads to. -/
theorem StoredBeside.uneven (h : StoredBeside t c lost b d free high) :
    Uneven t c lost [] b d free high :=
  ⟨h.shape, h.balanced, ⟨b.height, trivial, by omega, by omega⟩, h.kept⟩

/-- The walk up balances the tree, and leaves all but its shape alone. -/
theorem Uneven.run_rebalanceFrom (h : Uneven t c lost p b d free high)
    (small : high < Word.size64) :
    ∃ vs c', Ascends t.ns p c vs c' ∧ Focus c' t.ns (p.climb b).ids [] (p.climb b) ∧
      (p.climb b).Balanced ∧ Kept t c' lost (p.climb b).ids d free high ∧
      Contents.Changes (IsShape t.ns (p.close b).ids) c c' := by
  obtain ⟨level, steady, below, above⟩ := h.level
  have nodes := h.kept.length_le
  obtain ⟨vs, c', ascends, focus, balanced, changes⟩ :=
    Tree.run_rebalanceFrom h.focus h.balanced steady below above (by omega)
  have same : (p.climb b).ids = (p.close b).ids := focus.ids_close
  exact ⟨vs, c', ascends, same ▸ focus, balanced, same ▸ h.kept.frame_shape changes, changes⟩

/-- The size was written, and nothing else. -/
theorem Kept.put_size {ids : List NodeId} (h : Kept t c lost ids d free high)
    (n : Nat) : Kept t (c.put (Key.size t.ns).text (toString n)) lost ids d free high := by
  refine h.frame (.single c (.size t.ns) _) ?_ ?_
  · simp
  · rintro k rfl
    simp

theorem Focus.put_size {ns : FileId} {ids : List NodeId} (h : Focus c ns ids p b)
    (n : Nat) : Focus (c.put (Key.size ns).text (toString n)) ns ids p b := by
  refine h.frame (.single c (.size ns) _) ?_
  rintro k rfl
  simp

theorem Uneven.put_size (h : Uneven t c lost p b d free high) (n : Nat) :
    Uneven t (c.put (Key.size t.ns).text (toString n)) lost p b d free high :=
  ⟨h.focus.put_size n, h.balanced, h.level, h.kept.put_size n⟩

/-! ### A key that is there -/

/-- Where only the entry of the node that was hit is written, the entries around it stay. -/
theorem Hit.entries_around {c' : Contents} {p : Trail} {l r : Branch} {f : Fork}
    {pre post : Dictionary} {e : List String × String} (hit : Hit t c b d key p l f r pre e post)
    (hc : Contents.Changes (Node.IsEntry t.ns f.id) c c') :
    Entries c' t.ns (p.before ++ l.ids) pre ∧ Entries c' t.ns (r.ids ++ p.after) post := by
  have split : b.ids = (p.before ++ l.ids) ++ f.id :: (r.ids ++ p.after) := by
    rw [← hit.focus.ids_close, Trail.ids_close]
    simp
  -- The ids of a tree are all different, so the node that was hit is none of those around it.
  obtain ⟨-, nodup_post, apart⟩ := List.nodup_append'.1 (split ▸ hit.focus.nodup)
  refine ⟨hit.before.frame hc ?_, hit.after.frame hc ?_⟩
  · intro id hid g _
    refine Node.not_isEntry_of_ne ?_ g
    rintro rfl
    exact apart hid (by simp)
  · intro id hid g _
    refine Node.not_isEntry_of_ne ?_ g
    rintro rfl
    exact (List.nodup_cons.1 nodup_post).1 hid

/-- An entry was written over the one that was hit. -/
theorem Hit.entries_update {c' : Contents} {p : Trail} {l r : Branch} {f : Fork}
    {pre post : Dictionary} {e e' : List String × String}
    (hit : Hit t c b d key p l f r pre e post)
    (hc : Contents.Changes (Node.IsEntry t.ns f.id) c c') (holds : Node.Holds c' t.ns f.id e') :
    Entries c' t.ns b.ids (pre ++ e' :: post) := by
  have split : b.ids = (p.before ++ l.ids) ++ f.id :: (r.ids ++ p.after) := by
    rw [← hit.focus.ids_close, Trail.ids_close]
    simp
  obtain ⟨before, after⟩ := hit.entries_around hc
  rw [split]
  exact before.append (.cons holds after)

/-- A key that is there gets the new payload and stays as it was first written. -/
theorem StoredBeside.run_replace (h : StoredBeside t c lost b d free high) (value : String)
    {l r : Branch} {f : Fork} {pre post : Dictionary} {e : List String × String}
    (hit : Hit t c b d key p l f r pre e post) :
    ∃ c', (Node.setData t.ns f.id value).run c = .ok () c' ∧
      StoredBeside t c' lost b (d.insert t.orders key value) free high ∧
      Contents.Changes (IsOwned t.ns) c c' := by
  set c' := c.put (Key.node t.ns f.id .data).text value with hc'
  have changes : Contents.Changes (Node.IsEntry t.ns f.id) c c' :=
    (Contents.Changes.refl _ c).put ⟨_, Node.not_isShape_data, rfl⟩ _
  have entries := hit.entries_update changes (hit.here.put_data value)
  have same : d.insert t.orders key value = pre ++ (e.1, value) :: post := by
    rw [hit.split, hit.around.insert_found hit.equal]
  have sorted := hit.split ▸ h.kept.sorted
  refine ⟨c', rfl, ⟨h.shape.frame changes fun k hk => not_isShape_of_isEntry hk, h.balanced,
    ⟨same ▸ entries, same ▸ sorted.replace value, ?_, h.kept.covers⟩, ?_⟩,
    changes.mono fun k hk => isOwned_of_isEntry hk⟩
  · exact h.kept.pool.frame changes fun k hk => not_isPool_of_isEntry hk
  · rw [changes.count?_eq (by rintro ⟨g, -, he⟩; cases he), h.size, same, hit.split]
    simp

/-! ### A fresh leaf -/

/-- A fresh id is lost to the tree as long as no node has it. -/
theorem StoredBeside.run_issue (h : StoredBeside t c lost b d free high)
    (room : high + 1 < Word.size64) :
    ∃ leaf free' high' c', (IdPool.allocate t.ns).run c = .ok leaf c' ∧
      StoredBeside t c' (leaf :: lost) b d free' high' ∧ high' ≤ high + 1 ∧
      leaf < Word.size64 ∧ Contents.Changes (IdPool.IsPool t.ns) c c' := by
  have used := h.kept.covers.length
  obtain ⟨leaf, free', high', c', run, issued, pool, changes⟩ :=
    IdPool.run_allocate h.kept.pool (by omega) room
  have covers := issued.covers h.kept.covers
  have bound := issued.high_le
  have fits : leaf < Word.size64 := by
    have := (covers.mem_iff leaf).1 (by simp)
    exact this.2.trans_lt (bound.trans_lt room)
  have kept : Kept t c' (leaf :: lost) b.ids d free' high' := by
    exact ⟨h.kept.entries.frame changes (by simp), h.kept.sorted, pool, covers⟩
  have size : c'.count? (.size t.ns) = some d.length := by
    rw [changes.count?_eq (by simp), h.size]
  exact ⟨leaf, free', high', c', run,
    ⟨h.shape.frame changes fun k hk => not_isShape_of_isPool hk, h.balanced, kept, size⟩, bound,
    fits, changes⟩

/-- What is written to a node that is lost does not matter to the tree. -/
theorem StoredBeside.frame_lost (h : StoredBeside t c lost b d free high) {leaf : NodeId}
    (mem : leaf ∈ lost) (hc : Contents.Changes (Node.IsField t.ns leaf) c c') :
    StoredBeside t c' lost b d free high := by
  have new : leaf ∉ b.ids := h.kept.not_mem mem
  refine ⟨h.shape.frame hc ?_, h.balanced, h.kept.frame hc ?_ ?_, ?_⟩
  · rintro k ⟨f, rfl⟩ (he | ⟨id, hid, g, -, he⟩)
    · cases he
    · exact new ((Key.node.inj he).2.1 ▸ hid)
  · rintro id hid f - ⟨g, he⟩
    exact new ((Key.node.inj he).2.1 ▸ hid)
  · rintro k ⟨f, rfl⟩
    simp
  · rw [hc.count?_eq (by simp [Node.IsField]), h.size]

theorem Miss.ids_eq {pre post : Dictionary} (miss : Miss t c b d key p pre post) :
    b.ids = p.before ++ p.after := by
  rw [← miss.focus.ids_close, Trail.ids_close]
  simp

/-- The place of a key stays, as long as the tree is stored as it was. -/
theorem Miss.frame {P : Key → Prop} {pre post : Dictionary} (miss : Miss t c b d key p pre post)
    (hc : Contents.Changes P c c') (hshape : ∀ k, P k → ¬ IsShape t.ns b.ids k)
    (hentry : ∀ id ∈ b.ids, ∀ f : NodeField, ¬ f.IsShape → ¬ P (.node t.ns id f)) :
    Miss t c' b d key p pre post := by
  refine ⟨miss.focus.frame hc hshape, miss.close, miss.split, miss.before.frame hc ?_,
    miss.after.frame hc ?_, miss.around⟩
  · exact fun id hid => hentry id (by simp [miss.ids_eq, hid])
  · exact fun id hid => hentry id (by simp [miss.ids_eq, hid])

theorem slot_ne_entry {ns : FileId} {id : NodeId} {f : NodeField} (p : Trail) (hf : ¬ f.IsShape) :
    Key.node ns id f ≠ p.slot ns := by
  cases p with
  | nil => simp [Trail.slot]
  | cons t p =>
    intro he
    obtain ⟨-, -, rfl⟩ := Key.node.inj he
    exact hf (by simp)

theorem not_isPool_slot (ns : FileId) (p : Trail) : ¬ IdPool.IsPool ns (p.slot ns) := by
  cases p <;> simp [Trail.slot]

theorem size_ne_slot (ns : FileId) (p : Trail) : Key.size ns ≠ p.slot ns := by
  cases p <;> simp [Trail.slot]

/-- Linking a leaf at the place of its key makes it part of the tree. -/
theorem Miss.link {leaf : NodeId} {pre post : Dictionary}
    (miss : Miss t c b d key p pre post) (h : StoredBeside t c (leaf :: lost) b d free high)
    (new : (Branch.single leaf).StoredIn c t.ns p.parent)
    (holds : Node.Holds c t.ns leaf (key, value)) (arity : key.length = t.arity) :
    Uneven t (c.put (p.slot t.ns).text (Link.text (some leaf))) lost p (.single leaf)
      (pre ++ (key, value) :: post) free high := by
  have changes : Contents.Changes (· = p.slot t.ns) c
      (c.put (p.slot t.ns).text (Link.text (some leaf))) := .single c _ _
  have ids : (p.close (.single leaf)).ids = p.before ++ leaf :: p.after := by
    simp [Trail.ids_close]
  have covers : IdPool.Covers (lost ++ (p.close (.single leaf)).ids) free high := by
    refine List.Perm.trans (List.Perm.append_right free ?_) h.kept.covers
    rw [ids, miss.ids_eq]
    exact (List.Perm.append_left lost List.perm_middle).trans List.perm_middle
  have nodup := (List.nodup_append'.1 (List.nodup_append'.1 covers.nodup).1).2.1
  -- The trail was balanced around the missing branch, which is one level lower than the leaf.
  obtain ⟨-, steady⟩ := Trail.steady_of_balanced (miss.close.symm ▸ h.balanced)
  refine ⟨Focus.graft miss.focus.trail new nodup, Branch.balanced_single leaf,
    ⟨_, steady, by simp, by simp⟩, ⟨?_, ?_, ?_, covers⟩⟩
  · rw [ids]
    have stays : ∀ id (f : NodeField), ¬ f.IsShape → Key.node t.ns id f ≠ p.slot t.ns :=
      fun id f hf => slot_ne_entry p hf
    exact (miss.before.frame changes fun id _ => stays id).append
      (.cons (holds.frame changes (stays leaf)) (miss.after.frame changes fun id _ => stays id))
  · exact (miss.split ▸ h.kept.sorted).insert_between miss.around arity value
  · refine h.kept.pool.frame changes ?_
    rintro k rfl
    exact not_isPool_slot t.ns p

/-! ### Attaching -/

/-- Inserting up to the walk that follows it: gives the node to rebalance from. -/
def attach (t : Tree) (key : List String) (data : String) : Script Link := do
  t.checkKey key
  match ← t.place key with
  | .empty => do
    t.insertRoot key data
    return none
  | .found id => do
    Node.setData t.ns id data
    return none
  | .below id side => do
    let leaf ← IdPool.allocate t.ns
    Node.create t.ns leaf key data (some id)
    Node.setChild t.ns side id (some leaf)
    setSize t.ns (← Script.successor (← size t.ns))
    return some id

/-- Inserting is attaching, and the walk up from there. -/
theorem insert_eq (t : Tree) (key : List String) (value : String) :
    t.insert key value = t.attach key value >>= rebalanceFrom t.ns := by
  have nowhere : rebalanceFrom t.ns none = pure () := climb_none t.ns walkBound
  simp only [insert, attach, bind_assoc]
  refine bind_congr fun _ => bind_congr fun place => ?_
  cases place with
  | empty => simp [nowhere]
  | found id => simp [nowhere]
  | below id side => simp [insertBelow]

/-- The keys written before the walk: the pool, the fields of the leaf, the link to it and the
size. -/
def IsAttached (ns : FileId) (leaf : NodeId) (slot k : Key) : Prop :=
  IdPool.IsPool ns k ∨ Node.IsField ns leaf k ∨ k = slot ∨ k = .size ns

theorem isOwned_of_isAttached {ns : FileId} {leaf : NodeId} {ids : List NodeId}
    (focus : Focus c ns ids p b) {k : Key} (hk : IsAttached ns leaf (p.slot ns) k) :
    IsOwned ns k := by
  rcases hk with hk | hk | rfl | rfl
  · exact isOwned_of_isPool hk
  · exact isOwned_of_isField hk
  · exact isOwned_of_isShape focus.isShape_slot
  · exact isOwned_size ns

/-- The leaf of a new key is made ready, and is not yet linked. -/
theorem StoredBeside.run_prepare (h : StoredBeside t c lost b d free high) (value : String)
    {pre post : Dictionary} (miss : Miss t c b d key p pre post) (room : high + 1 < Word.size64) :
    ∃ leaf free' high' c₁ c₂, (IdPool.allocate t.ns).run c = .ok leaf c₁ ∧
      StoredBeside t c₁ (leaf :: lost) b d free' high' ∧ high' ≤ high + 1 ∧
      Contents.Changes (IdPool.IsPool t.ns) c c₁ ∧
      (Node.create t.ns leaf key value p.parent).run c₁ = .ok () c₂ ∧
      StoredBeside t c₂ (leaf :: lost) b d free' high' ∧ Miss t c₂ b d key p pre post ∧
      (Branch.single leaf).StoredIn c₂ t.ns p.parent ∧ Node.Holds c₂ t.ns leaf (key, value) ∧
      Contents.Changes (Node.IsField t.ns leaf) c₁ c₂ := by
  obtain ⟨leaf, free', high', c₁, run₁, stored₁, bound, fits, changes₁⟩ := h.run_issue room
  obtain ⟨c₂, run₂, new, holds, changes₂⟩ :=
    Node.run_create c₁ t.ns key value fits miss.focus.trail.fits
  have apart : leaf ∉ b.ids := stored₁.kept.not_mem List.mem_cons_self
  have miss₁ := miss.frame changes₁ (fun k hk => not_isShape_of_isPool hk) (by simp)
  have miss₂ : Miss t c₂ b d key p pre post := by
    refine miss₁.frame changes₂ ?_ ?_
    · rintro k ⟨f, rfl⟩ (he | ⟨id, hid, g, -, he⟩)
      · cases he
      · exact apart ((Key.node.inj he).2.1 ▸ hid)
    · rintro id hid f - ⟨g, he⟩
      exact apart ((Key.node.inj he).2.1 ▸ hid)
  exact ⟨leaf, free', high', c₁, c₂, run₁, stored₁, bound, changes₁, run₂,
    stored₁.frame_lost List.mem_cons_self changes₂, miss₂, new, holds, changes₂⟩

/-- A new key gets a leaf at its place, and the size counts it. -/
theorem StoredBeside.run_attach_new (h : StoredBeside t c lost b d free high) (value : String)
    {pre post : Dictionary} (miss : Miss t c b d key p pre post)
    (placed : (t.place key).run c = .ok p.place c) (arity : key.length = t.arity)
    (room : high + 1 < Word.size64) :
    ∃ leaf free' high' c', (t.attach key value).run c = .ok p.parent c' ∧
      Uneven t c' lost p (.single leaf) (d.insert t.orders key value) free' high' ∧
      c'.count? (.size t.ns) = some (d.insert t.orders key value).length ∧ high' ≤ high + 1 ∧
      leaf ∉ b.ids ∧ Node.Holds c' t.ns leaf (key, value) ∧
      Contents.Changes (IsAttached t.ns leaf (p.slot t.ns)) c c' := by
  obtain ⟨leaf, free', high', c₁, c₂, run₁, -, bound, changes₁, run₂, stored₂, miss₂, new, holds,
    changes₂⟩ := h.run_prepare value miss room
  have uneven := miss₂.link stored₂ new holds arity
  set c₃ := c₂.put (p.slot t.ns).text (Link.text (some leaf)) with hc₃
  set c₄ := c₃.put (Key.size t.ns).text (toString (d.length + 1)) with hc₄
  have inserted : d.insert t.orders key value = pre ++ (key, value) :: post := by
    rw [miss.split, miss.around.insert_new]
  have length : (d.insert t.orders key value).length = d.length + 1 := by
    rw [inserted, miss.split]
    simp
    omega
  have count := h.kept.entries.length_eq
  have small := h.kept.length_le
  have size₃ : c₃.count? (.size t.ns) = some d.length := by
    rw [(Contents.Changes.single c₂ (p.slot t.ns) _).count?_eq (size_ne_slot t.ns p), stored₂.size]
  refine ⟨leaf, free', high', c₄, ?_, inserted ▸ uneven.put_size _, ?_, bound,
    stored₂.kept.not_mem List.mem_cons_self, ?_, ?_⟩
  · rw [attach, Script.run_bind_ok (run_checkKey c arity), Script.run_bind_ok placed]
    cases p with
    | nil =>
      -- The first node is the root, and it is counted as the only one.
      have empty : d = [] := by
        rw [miss.split, Entries.nil_iff.1 miss.before, Entries.nil_iff.1 miss.after]
        rfl
      rw [Trail.parent] at run₂
      simp only [Trail.place, insertRoot, bind_assoc]
      rw [Script.run_bind_ok run₁, Script.run_bind_ok run₂,
        Script.run_bind_ok (run_setRoot c₂ t.ns (some leaf))]
      rw [hc₄, empty]
      rfl
    | cons turn p =>
      have parent : Trail.parent (turn :: p) = some turn.fork.id := rfl
      rw [parent] at run₂
      have link : (Node.setChild t.ns turn.side turn.fork.id (some leaf)).run c₂ = .ok () c₃ := rfl
      have size : (Tree.size t.ns).run c₃ = .ok d.length c₃ := Script.run_count size₃
      have next := Script.run_successor c₃ (n := d.length) (by omega)
      simp only [Trail.place]
      rw [Script.run_bind_ok run₁, Script.run_bind_ok run₂, Script.run_bind_ok link,
        Script.run_bind_ok size, Script.run_bind_ok next]
      rfl
  · rw [length]
    exact Contents.count?_put_self c₃ (by simp) (by omega)
  · have linked := holds.frame (.single c₂ (p.slot t.ns) (Link.text (some leaf)))
      fun _ hg => slot_ne_entry p hg
    exact linked.frame (.single c₃ (.size t.ns) _) (by simp)
  · have prepared : Contents.Changes (IsAttached t.ns leaf (p.slot t.ns)) c c₂ :=
      (changes₁.mono fun _ => Or.inl).trans (changes₂.mono fun _ hk => Or.inr (Or.inl hk))
    exact (prepared.put (Or.inr (Or.inr (Or.inl rfl))) _).put (Or.inr (Or.inr (Or.inr rfl))) _

/-- Attaching does to the entries of the tree what inserting does to its dictionary. -/
theorem StoredBeside.run_attach (h : StoredBeside t c lost b d free high) (value : String)
    (arity : key.length = t.arity) (room : high + 1 < Word.size64) :
    ∃ p b' free' high' c', (t.attach key value).run c = .ok (Trail.parent p) c' ∧
      Uneven t c' lost p b' (d.insert t.orders key value) free' high' ∧
      c'.count? (.size t.ns) = some (d.insert t.orders key value).length ∧ high' ≤ high + 1 ∧
      Contents.Changes (IsOwned t.ns) c c' := by
  obtain ⟨place, placed, located⟩ := h.run_place arity (by rw [walkBound]; omega)
  cases located with
  | @found _ _ f _ _ _ _ hit =>
    obtain ⟨c', run, stored, changes⟩ := h.run_replace value hit
    refine ⟨[], b, free, high, c', ?_, stored.uneven, stored.size, by omega, changes⟩
    rw [attach, Script.run_bind_ok (run_checkKey c arity), Script.run_bind_ok placed]
    simp only
    rw [Script.run_bind_ok run]
    rfl
  | @missing p _ _ miss =>
    obtain ⟨leaf, free', high', c', run, uneven, size, bound, -, -, changes⟩ :=
      h.run_attach_new value miss placed arity room
    exact ⟨p, .single leaf, free', high', c', run, uneven, size, bound,
      changes.mono fun k hk => isOwned_of_isAttached miss.focus hk⟩

/-! ### Inserting -/

/-- Inserting does to the tree what it does to its dictionary. -/
theorem StoredBeside.run_insert (h : StoredBeside t c lost b d free high) (value : String)
    (arity : key.length = t.arity) (room : high + 1 < Word.size64) :
    ∃ c' b' free' high', (t.insert key value).run c = .ok () c' ∧
      StoredBeside t c' lost b' (d.insert t.orders key value) free' high' ∧ high' ≤ high + 1 ∧
      Contents.Changes (IsOwned t.ns) c c' := by
  obtain ⟨p, b', free', high', c₁, run₁, uneven, size, bound, changes₁⟩ :=
    h.run_attach value arity room
  obtain ⟨_, c₂, ascends, focus, balanced, kept, changes₂⟩ := uneven.run_rebalanceFrom (by omega)
  refine ⟨c₂, p.climb b', free', high', ?_, ⟨focus, balanced, kept, ?_⟩, bound,
    changes₁.trans (changes₂.mono fun k hk => isOwned_of_isShape hk)⟩
  · rw [insert_eq, Script.run_bind_ok run₁, ascends.run]
  · rw [changes₂.count?_eq (not_isShape_size _ _ _), size]

end Tree

end FlatStore
