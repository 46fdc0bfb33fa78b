import FlatStore.Proofs.Applied
import FlatStore.Proofs.IdPool.Run
import FlatStore.Proofs.Tree.Call

/-! # Inserts that are cut short

    An insert of a new key first makes a leaf ready, and then writes the one
    link that leads to it. Up to that write the tree is what it was, whichever
    call of the store fails.

    * **Before the link**: the writes of the insert up to there are that of the
      pool and those to the leaf. The first few of them leave the tree stored,
      beside at most one id that is lost (`putAll_unlinked`).
    * **Later runs** (`RunFrom`): a tree that is stored beside lost ids goes on
      as an ordered dictionary (`RunFrom.served`, `ActsAs`).
    * `insert_commits_with_its_link`: both together, for trees that some run
      leads to.
-/

namespace FlatStore

namespace Script

variable {α β : Type} {s : Script α} {c : Contents}

/-- Behind a script that only asks, the writes are those of the next one. -/
theorem Asks.writes_bind_ok {S : Structure} (asks : s.Asks S) {f : α → Script β} {a : α}
    (run : s.run c = .ok a c) : (s >>= f).writes c = (f a).writes c := by
  rw [Script.writes_bind_ok run, asks.reads.writes_eq, List.nil_append]

theorem Asks.length_writes_bind {S : Structure} (asks : s.Asks S) {f : α → Script β} {n : Nat}
    (h : ∀ a, ((f a).writes c).length ≤ n) : ((s >>= f).writes c).length ≤ n := by
  have left := (asks.leaves c).1
  rw [writes_bind, asks.reads.writes_eq]
  cases run : s.run c with
  | ok a c₁ =>
    rw [run] at left
    obtain rfl : c₁ = c := left
    exact h a
  | error e c₁ => exact Nat.zero_le n

end Script

/-! ### Making a leaf ready -/

/-- Issuing an id takes one write at most. -/
theorem IdPool.length_writes_allocate (ns : FileId) (c : Contents) :
    ((allocate ns).writes c).length ≤ 1 := by
  refine (asks_freeCount ns).length_writes_bind fun count => ?_
  cases count with
  | zero =>
    exact (asks_highWater ns).length_writes_bind fun high =>
      (Script.asks_successor (.space ns) high).length_writes_bind fun _ => Nat.le_refl 1
  | succ slot =>
    refine (Script.asks_getParsed _ (.freeSlot ns slot)).length_writes_bind fun found => ?_
    cases found with
    | none => exact Nat.zero_le 1
    | some id => exact Nat.le_refl 1

namespace Node

variable (ns : FileId) (id : NodeId)

theorem text_ne_of_not_isField (f : NodeField) (k : Key) (other : ¬ IsField ns id k) :
    k.text ≠ (Key.node ns id f).text := by
  intro same
  have isLocal : (Key.node ns id f).Local := rfl
  exact other ⟨f, ((Key.text_inj isLocal).1 same.symm).symm⟩

theorem spares_writeComponents (i : Nat) (key : List String) :
    (writeComponents ns id i key).Spares fun k => ¬ IsField ns id k := by
  induction key generalizing i with
  | nil => trivial
  | cons text rest ih => exact ⟨text_ne_of_not_isField ns id _, ih (i + 1)⟩

/-- Creating a node writes its own fields only. -/
theorem spares_create (key : List String) (value : String) (parent : Link) :
    (create ns id key value parent).Spares fun k => ¬ IsField ns id k :=
  have own := text_ne_of_not_isField ns id
  ⟨own .height, own .balance, own .data, own .left, own .right, own .parent,
    spares_writeComponents ns id 0 key⟩

end Node

namespace Tree

variable {t : Tree} {c c₁ : Contents} {b : Branch} {d : Dictionary} {lost free : List NodeId}
  {high : Nat} {key : List String} {value : String} {p : Trail} {leaf : NodeId}

/-! ### Before the link -/

/-- The writes of an insert at a missing branch: those that make the leaf ready, the link to it, and
the rest. -/
theorem writes_insert (arity : key.length = t.arity)
    (placed : (t.place key).run c = .ok p.place c)
    (issued : (IdPool.allocate t.ns).run c = .ok leaf c₁)
    {c₂ : Contents} (created : (Node.create t.ns leaf key value p.parent).run c₁ = .ok () c₂) :
    ∃ rest, (t.insert key value).writes c =
      ((IdPool.allocate t.ns).writes c ++ (Node.create t.ns leaf key value p.parent).writes c₁) ++
        ((p.slot t.ns).text, Link.text (some leaf)) :: rest := by
  have checks : (t.checkKey key).Asks (.space t.ns) := (asking t.ns).checkKey key
  have places : (t.place key).Asks (.space t.ns) := (asking t.ns).place key
  rw [insert, checks.writes_bind_ok (run_checkKey c arity), places.writes_bind_ok placed]
  simp only [List.append_assoc]
  cases p with
  | nil =>
    rw [Trail.parent] at created
    simp only [Trail.place, insertRoot]
    rw [Script.writes_bind_ok issued, Script.writes_bind_ok created]
    exact ⟨_, rfl⟩
  | cons turn p =>
    have parent : Trail.parent (turn :: p) = some turn.fork.id := rfl
    rw [parent] at created
    simp only [Trail.place, insertBelow]
    rw [Script.writes_bind_ok issued, Script.writes_bind_ok created]
    exact ⟨_, rfl⟩

/-- The first few of the writes that make a leaf ready leave the tree stored, beside the id of the
leaf if that was issued. -/
theorem StoredBeside.putAll_ready (h : StoredBeside t c₁ (leaf :: lost) b d free high)
    (issued : (IdPool.allocate t.ns).run c = .ok leaf c₁)
    (changes₁ : Contents.Changes (IdPool.IsPool t.ns) c c₁) {parent : Link}
    {applied : List (String × String)}
    (first : applied <+: (IdPool.allocate t.ns).writes c ++
      (Node.create t.ns leaf key value parent).writes c₁) :
    applied = [] ∨ StoredBeside t (c.putAll applied) (leaf :: lost) b d free high ∧
      Contents.Changes (IsOwned t.ns) c (c.putAll applied) := by
  have single := IdPool.length_writes_allocate t.ns c
  have left : c.putAll ((IdPool.allocate t.ns).writes c) = c₁ := by
    rw [← Script.left_eq_putAll, issued]
    rfl
  have owned₁ : Contents.Changes (IsOwned t.ns) c c₁ :=
    changes₁.mono fun _ => isOwned_of_isPool
  rcases List.prefix_or_prefix_of_prefix first (List.prefix_append _ _) with within | ⟨more, rfl⟩
  · -- There is one write of the pool, so it was applied or nothing was.
    cases applied with
    | nil => exact Or.inl rfl
    | cons w applied =>
      rw [within.eq_of_length_le (single.trans (by simp)), left]
      exact Or.inr ⟨h, owned₁⟩
  · have fields : more <+: (Node.create t.ns leaf key value parent).writes c₁ :=
      (List.prefix_append_right_inj _).1 first
    have changes₂ : Contents.Changes (Node.IsField t.ns leaf) c₁ (c₁.putAll more) :=
      ((Node.spares_create t.ns leaf key value parent).changes_putAll fields).mono
        fun _ => Classical.not_not.1
    rw [Contents.putAll_append, left]
    exact Or.inr ⟨h.frame_lost List.mem_cons_self changes₂,
      owned₁.trans (changes₂.mono fun _ => isOwned_of_isField)⟩

/-- As long as an insert of a new key has not made its link, the tree is stored as before, beside
one more lost id at most. -/
theorem StoredBeside.putAll_unlinked (h : StoredBeside t c lost b d free high) (value : String)
    (arity : key.length = t.arity) (room : high + 1 < Word.size64)
    (absent : d.contains t.orders key = false) :
    ∃ p leaf c₁, (t.place key).run c = .ok (Trail.place p) c ∧
      (IdPool.allocate t.ns).run c = .ok leaf c₁ ∧
      ((p.slot t.ns).text, Link.text (some leaf)) ∈ (t.insert key value).writes c ∧
      ∀ applied, applied <+: (t.insert key value).writes c →
        ((p.slot t.ns).text, Link.text (some leaf)) ∉ applied →
        ∃ lost' free' high', lost'.length ≤ lost.length + 1 ∧
          StoredBeside t (c.putAll applied) lost' b d free' high' ∧ high' ≤ high + 1 ∧
          Contents.Changes (IsOwned t.ns) c (c.putAll applied) := by
  obtain ⟨p, pre, post, placed, miss⟩ := h.run_place_absent arity (by rw [walkBound]; omega) absent
  obtain ⟨leaf, free', high', c₁, c₂, issued, stored₁, bound, changes₁, created, -⟩ :=
    h.run_prepare value miss room
  obtain ⟨rest, writes⟩ := writes_insert arity placed issued created
  refine ⟨p, leaf, c₁, placed, issued, by simp [writes], fun applied first unlinked => ?_⟩
  rw [writes] at first
  -- What was applied ends in front of the link, since it would go on with it.
  have ready : applied <+: (IdPool.allocate t.ns).writes c ++
      (Node.create t.ns leaf key value p.parent).writes c₁ := by
    rcases List.prefix_or_prefix_of_prefix first (List.prefix_append _ _) with within | ⟨more, rfl⟩
    · exact within
    · cases more with
      | nil => simp
      | cons w more =>
        obtain ⟨rfl, -⟩ := List.cons_prefix_cons.1 ((List.prefix_append_right_inj _).1 first)
        exact absurd (by simp) unlinked
  rcases stored₁.putAll_ready issued changes₁ ready with rfl | ⟨stored, changes⟩
  · exact ⟨lost, free, high, by omega, h, by omega, .refl _ c⟩
  · exact ⟨leaf :: lost, free', high', by simp, stored, bound, changes⟩

/-! ### Later runs -/

variable {σ : Type} [ByteStore σ] {view : StoreView σ} {n n₀ : Nat} {d₀ : Dictionary}
  {f f₀ : FieldStore σ}

/-- Field stores that some run leads to from a given one on, with the number of inserts and the
dictionary counted on from there. No move of the run meets a write that the store refuses. -/
inductive RunFrom (t : Tree) (view : StoreView σ) (n₀ : Nat) (d₀ : Dictionary)
    (f₀ : FieldStore σ) : Nat → Dictionary → FieldStore σ → Prop where
  | start : RunFrom t view n₀ d₀ f₀ n₀ d₀ f₀
  | step {n : Nat} {d : Dictionary} {f : FieldStore σ} (m : Move)
      (h : RunFrom t view n₀ d₀ f₀ n d f) (allowed : m.Allowed t)
      (takes : view.TakesAll (m.writes t (view.contents f.store))) :
      RunFrom t view n₀ d₀ f₀ (n + m.inserts) (m.onDictionary t d) (m.apply t f)

/-- Along every run a tree is served that was served where the run started. -/
theorem RunFrom.served (h : RunFrom t view n₀ d₀ f₀ n d f) (few : n + 1 < Word.size64)
    (start : ServedBeside t view n₀ lost d₀ f₀ b free high) :
    ∃ b' free' high', ServedBeside t view n lost d f b' free' high' := by
  induction h with
  | start => exact ⟨b, free, high, start⟩
  | step m _ allowed takes ih =>
    obtain ⟨b', free', high', served⟩ := ih (by omega)
    exact served.step allowed takes few

/-- The tree does what the dictionary does: it gives the same answers, and its calls succeed. -/
structure ActsAs (t : Tree) (view : StoreView σ) (d : Dictionary) (f : FieldStore σ) : Prop where
  sorted : d.Sorted t.orders
  answers : Answers t d f
  insert : ∀ key value, key.length = t.arity →
    view.TakesAll ((t.insert key value).writes (view.contents f.store)) →
    ∃ f', FieldStore.perform (t.insert key value) f = .ok () f'
  delete : ∀ key, key.length = t.arity →
    view.TakesAll ((t.delete key).writes (view.contents f.store)) →
    ∃ f', FieldStore.perform (t.delete key) f = .ok (d.contains t.orders key) f'
  reopen : view.TakesAll ((openRecorded t.ns t.orders).writes (view.contents f.store)) →
    ∃ f', FieldStore.perform (openRecorded t.ns t.orders) f = .ok t f'

theorem ServedBeside.actsAs (h : ServedBeside t view n lost d f b free high)
    (few : n + 1 + 1 < Word.size64) : ActsAs t view d f where
  sorted := h.stored.kept.sorted
  answers := h.answers (by omega)
  insert _ _ arity takes := by
    obtain ⟨f', -, -, -, performed, -⟩ := h.insert arity takes few
    exact ⟨f', performed⟩
  delete _ arity takes := by
    obtain ⟨f', -, -, performed, -⟩ := h.delete arity takes (by omega)
    exact ⟨f', performed⟩
  reopen takes := by
    obtain ⟨f', performed, -⟩ := h.reopen takes
    exact ⟨f', performed⟩

/-! ### The commit point -/

/-- The contents make up a balanced search tree of the shape `b` without shared nodes: links and
parent links agree, heights and balance factors are right, and the size is the number of nodes. The
ids of the nodes, the free ones and those lost to both are together the numbers up to the largest
one issued. -/
structure SoundBeside (t : Tree) (c : Contents) (lost : List NodeId) (b : Branch)
    (free : List NodeId) (high : Nat) : Prop where
  root : c.root? t.ns = some b.link
  shape : b.StoredIn c t.ns none
  nodup : b.ids.Nodup
  balanced : b.Balanced
  ordered : t.Ordered c b
  size : c.count? (.size t.ns) = some b.ids.length
  pool : IdPool.StoredIn c t.ns free high
  apart : (lost ++ b.ids ++ free).Nodup
  issued : (lost ++ b.ids ++ free).Perm (List.range' 1 high)

theorem StoredBeside.sound (h : StoredBeside t c lost b d free high) :
    SoundBeside t c lost b free high where
  root := h.shape.trail
  shape := h.shape.branch
  nodup := h.shape.nodup
  balanced := h.balanced
  ordered := ordered_of_entries h.kept.entries h.kept.sorted
  size := by rw [h.kept.entries.length_eq, h.size]
  pool := h.kept.pool
  apart := h.kept.covers.nodup
  issued := h.kept.covers

/-- Take a tree that some run leads to, and insert a new key through a store of which any call may
fail. If the store has not taken the write of the link to the new node, then the insert fails, for
the store. All queries answer as before, or fail for the store; what is stored is a sound tree,
with at most one id lost; and from any store without failures that holds the same, every run goes
on as that of the ordered dictionary without the key. -/
theorem insert_commits_with_its_link (h : Reachable t view n d f) (few : n + 1 + 1 < Word.size64)
    (key : List String) (value : String) (arity : key.length = t.arity)
    (absent : d.contains t.orders key = false) {τ : Type} [ByteStore τ] {calls : Unreliable τ}
    {g : FieldStore τ} (reflects : g.Reflects calls (view.contents f.store)) :
    ∃ (p : Trail) (leaf : NodeId) (c₁ : Contents),
      (t.place key).run (view.contents f.store) = .ok p.place (view.contents f.store) ∧
      (IdPool.allocate t.ns).run (view.contents f.store) = .ok leaf c₁ ∧
      (((p.slot t.ns).text, Link.text (some leaf)) ∉ FieldStore.applied (t.insert key value) g →
        ∃ e g' c', FieldStore.perform (t.insert key value) g = .error e g' ∧
          IdPool.FromStore τ e ∧ g'.Reflects calls c' ∧
          (∃ lost b free high, lost.length ≤ 1 ∧ SoundBeside t c' lost b free high) ∧
          (∀ call : Call, call.IsQuery → call.Fits t → ∃ a,
            (∃ f', FieldStore.perform (call.script t) f = .ok a f') ∧
            Meets (fun a' _ => a' = a) (fun e _ => IdPool.FromStore τ e)
              (FieldStore.perform (call.script t) g') ∧
            ∀ {ρ : Type} [ByteStore ρ] {later : StoreView ρ} {f₀ : FieldStore ρ},
              f₀.Shows later c' → ∃ f', FieldStore.perform (call.script t) f₀ = .ok a f') ∧
          ∀ {ρ : Type} [ByteStore ρ] {later : StoreView ρ} {f₀ : FieldStore ρ},
            f₀.Shows later c' → ∀ n' d' f', RunFrom t later (n + 1) d f₀ n' d' f' →
              n' + 1 + 1 < Word.size64 → ActsAs t later d' f') := by
  obtain ⟨b, free, high, served⟩ := h.served (by omega)
  have issued := served.issued
  obtain ⟨p, leaf, c₁, placed, allocated, links, unlinked⟩ :=
    served.stored.putAll_unlinked value arity (by omega) absent
  refine ⟨p, leaf, c₁, placed, allocated, fun early => ?_⟩
  obtain ⟨c₂, -, -, -, succeeds, -⟩ := served.stored.run_insert value arity (by omega)
  have traced := FieldStore.applied_unreliable reflects (t.insert key value)
  have outcome := IdPool.perform_of_run reflects succeeds
  cases performed : FieldStore.perform (t.insert key value) g with
  | ok _ g' => exact absurd ((traced.of_ok performed).1 ▸ links) early
  | error e g' =>
    obtain ⟨first, reflects'⟩ := traced.of_error performed
    obtain ⟨lost, free', high', one, stored, bound, changes⟩ := unlinked _ first early
    have agrees := served.agrees.frame changes (not_isOwned_orders t.ns)
    refine ⟨e, g', _, rfl, (outcome.of_error performed).1, reflects',
      ⟨lost, b, free', high', one, stored.sound⟩, ?_, ?_⟩
    · intro call query fits
      have reads := ((asking t.ns).query query).reads
      have before := served.stored.run_query query fits (by rw [walkBound]; omega)
      have behind := stored.run_query query fits (by rw [walkBound]; omega)
      refine ⟨call.answer t b d, ?_, ?_, ?_⟩
      · exact served.query reads before
      · exact (IdPool.perform_of_run reflects' behind).mono (fun _ _ h => h.1) fun _ _ h => h.1
      · intro ρ _ later f₀ shows
        obtain ⟨f₁, asked, -⟩ := FieldStore.perform_ok shows behind (reads.takesAll later _)
        exact ⟨f₁, asked⟩
    · intro ρ _ later f₀ shows n' d' f' run few'
      have start : ServedBeside t later (n + 1) lost d f₀ b free' high' :=
        served_of_shows shows stored agrees (by omega)
      obtain ⟨b', free₁, high₁, served'⟩ := run.served (by omega) start
      exact served'.actsAs few'

/-- A second key is inserted, and the store fails after four writes. The tree is left with the first
key. -/
theorem second_insert_is_cut_short :
    ∃ (f : FieldStore Memory) (g g' : FieldStore Faulty) (e : Failure),
      Reachable ⟨1, [.asc], by simp⟩ Memory.view 1 [(["1"], "a")] f ∧
      g = { store := { memory := f.store, writesLeft := some 4 } } ∧
      FieldStore.perform (Tree.insert ⟨1, [.asc], by simp⟩ ["2"] "b") g = .error e g' ∧
      ActsAs ⟨1, [.asc], by simp⟩ Memory.view [(["1"], "a")] { store := g'.store.memory } := by
  have start := reachable_empty ⟨1, [.asc], by simp⟩
  have run := start.step (.insert ["1"] "a") rfl fun _ _ => trivial
  have left : Move.onDictionary ⟨1, [.asc], by simp⟩ [] (.insert ["1"] "a") = [(["1"], "a")] := by
    decide +kernel
  rw [left] at run
  set f : FieldStore Memory :=
    Move.apply ⟨1, [.asc], by simp⟩ { store := Memory.empty } (.insert ["1"] "a")
  have place :
      (match (Tree.place ⟨1, [.asc], by simp⟩ ["2"]).run (Memory.view.contents f.store) with
        | .ok (.below id side) _ => (Key.node 1 id side.field).text
        | _ => "") = (Key.node 1 1 .right).text := by
    decide +kernel
  have applied : ∀ w ∈ FieldStore.applied (Tree.insert ⟨1, [.asc], by simp⟩ ["2"] "b")
      ({ store := { memory := f.store, writesLeft := some 4 } } : FieldStore Faulty),
      w.1 ≠ (Key.node 1 1 .right).text := by
    decide +kernel
  clear_value f
  set g : FieldStore Faulty := { store := { memory := f.store, writesLeft := some 4 } } with hg
  have fresh : ∀ key, g.cache.value? key = none := fun _ => Std.TreeMap.getElem?_emptyc
  have reflects : g.Reflects .faulty (Unreliable.faulty.contents g.store) :=
    FieldStore.reflects_of_fresh trivial fresh
  have same : Unreliable.faulty.contents g.store = Memory.view.contents f.store := rfl
  rw [same] at reflects
  clear_value g
  obtain ⟨p, leaf, c₁, placed, -, cut⟩ :=
    insert_commits_with_its_link run (by decide) ["2"] "b" rfl (by decide +kernel) reflects
  rw [placed] at place
  have early : ((p.slot 1).text, Link.text (some leaf)) ∉
      FieldStore.applied (Tree.insert ⟨1, [.asc], by simp⟩ ["2"] "b") g := by
    cases p with
    | nil =>
      have nowhere : "" ≠ (Key.node 1 1 .right).text := by decide +kernel
      exact absurd place nowhere
    | cons turn p => exact fun mem => applied _ mem place
  obtain ⟨e, g', c', failed, -, reflects', -, -, later⟩ := cut early
  have shows : FieldStore.Shows Memory.view { store := g'.store.memory } c' :=
    ⟨trivial, reflects'.contents, fun _ _ h => nomatch h⟩
  exact ⟨f, g, g', e, run, hg, failed, later shows 2 _ _ .start (by decide)⟩

end Tree

end FlatStore
