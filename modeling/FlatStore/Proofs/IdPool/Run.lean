import FlatStore.Proofs.IdPool
import FlatStore.Proofs.Interrupted

/-! # Runs of an id pool

    A run starts with a pool that was never used and takes one move after the
    other: calls of the pool, of which any may fail on the way, emptying the
    cache, and whatever else happens in the store. A handle of a pool is its
    namespace, so calls through different handles are the same calls. Beside
    the fields, a run carries the ids that its calls have issued and taken
    back (`Ledger`).

    * **Stops**: a call that is cut short has written nothing, or one slot above
      the stack (`mem_stops_allocate`, `mem_stops_free`).
    * `Kept.step`: every move keeps the pool in step with the ledger.
    * `issues_no_id_twice`: the ids in use and the free ones are those that were
      ever issued, each once, and a call that fails changes none of them.
-/

namespace FlatStore.IdPool

variable {c c' : Contents} {ns : FileId} {stack : List NodeId} {high : Nat}

/-! ### Calls that are cut short -/

/-- The only write of a call that issues an id is its last step. -/
theorem mem_stops_allocate (h : c' ∈ (allocate ns).stops c) : c' = c := by
  rcases (asks_freeCount ns).mem_stops_bind h with same | ⟨count, -, h⟩
  · exact same
  cases count with
  | zero =>
    rcases (asks_highWater ns).mem_stops_bind h with same | ⟨high, -, h⟩
    · exact same
    rcases (Script.asks_successor (.space ns) high).mem_stops_bind h with same | ⟨next, -, h⟩
    · exact same
    rcases Script.mem_stops_bind h with h | ⟨-, c₁, -, h⟩
    · exact Script.mem_stops_put h
    · cases h
  | succ slot =>
    rcases (Script.asks_getParsed _ (.freeSlot ns slot)).mem_stops_bind h with same | ⟨found, -, h⟩
    · exact same
    cases found with
    | none => cases h
    | some id =>
      rcases Script.mem_stops_bind h with h | ⟨-, c₁, -, h⟩
      · exact Script.mem_stops_put h
      · cases h

/-- A call that takes an id back writes the slot first, so it stops before or behind that write. -/
theorem mem_stops_free {id : NodeId} (h : c' ∈ (IdPool.free ns id).stops c) :
    c' = c ∨ ∃ count, (freeCount ns).run c = .ok count c ∧
      c' = c.put (Key.freeSlot ns count).text (toString id) := by
  rcases (asks_freeCount ns).mem_stops_bind h with same | ⟨count, run, h⟩
  · exact Or.inl same
  rcases Script.mem_stops_bind h with h | ⟨_, c₁, put, h⟩
  · exact Or.inl (Script.mem_stops_put h)
  obtain rfl : c.put _ _ = c₁ := by
    rw [Script.run_put] at put
    cases put
    rfl
  refine Or.inr ⟨count, run, ?_⟩
  rcases (Script.asks_successor (.space ns) count).mem_stops_bind h with same | ⟨next, -, h⟩
  · exact same
  · exact Script.mem_stops_put h

/-- Wherever a call that takes an id back is cut short, the pool is stored as before. -/
theorem StoredIn.of_mem_stops_free (h : StoredIn c ns stack high) {id : NodeId}
    (mem : c' ∈ (IdPool.free ns id).stops c) : StoredIn c' ns stack high := by
  rcases mem_stops_free mem with rfl | ⟨count, run, rfl⟩
  · exact h
  · have start : (IdPool.freeCount ns).run c = .ok stack.length c := Script.run_count h.freeCount
    rw [start] at run
    cases run
    exact h.put_above (Nat.le_refl _) _

/-! ### Moves -/

/-- What the calls of a run have done: the ids that were issued and not taken back since, and those
that were taken back and not issued again since, each latest first. -/
structure Ledger where
  live : List NodeId := []
  freed : List NodeId := []
  deriving DecidableEq

/-- The number of ids that were ever issued. -/
def Ledger.issued (l : Ledger) : Nat := l.live.length + l.freed.length

/-- What can happen to a pool. -/
inductive Move (σ : Type) where
  | allocate
  | free (id : NodeId)
  | clearCache
  /-- Anything that is not done through the pool. -/
  | other (s : Script Unit)
  /-- The byte store becomes one that fails elsewhere. -/
  | disturb (store : σ)

variable {σ : Type} [ByteStore σ]

namespace Move

/-- Not more ids are issued than there are, an id that is given back is in use, the pool is the only
writer of its fields, and what else happens to the byte store leaves its contents alone. -/
def Allowed (view : Unreliable σ) (ns : FileId) (l : Ledger) (f : FieldStore σ) : Move σ → Prop
  | allocate => l.issued + 1 < Word.size64
  | free id => id ∈ l.live
  | clearCache => True
  | other s => s.Spares (IsPool ns)
  | disturb store => view.sound store ∧ view.contents store = view.contents f.store

/-- The field store after a move, whatever its outcome. -/
def apply (ns : FileId) (f : FieldStore σ) : Move σ → FieldStore σ
  | allocate => leftBy (FieldStore.perform (IdPool.allocate ns) f)
  | free id => leftBy (FieldStore.perform (IdPool.free ns id) f)
  | clearCache => f.clearCache
  | other s => leftBy (FieldStore.perform s f)
  | disturb store => { f with store }

/-- The ledger after a move: a call that fails is not entered. -/
def enter (ns : FileId) (f : FieldStore σ) (l : Ledger) : Move σ → Ledger
  | allocate =>
    match FieldStore.perform (IdPool.allocate ns) f with
    | .ok id _ => ⟨id :: l.live, l.freed.erase id⟩
    | .error _ _ => l
  | free id =>
    match FieldStore.perform (IdPool.free ns id) f with
    | .ok () _ => ⟨l.live.erase id, id :: l.freed⟩
    | .error _ _ => l
  | clearCache | other _ | disturb _ => l

end Move

/-- Field stores that some run leads to, with the ledger of the run. -/
inductive Reachable (view : Unreliable σ) (ns : FileId) : Ledger → FieldStore σ → Prop where
  | start {f : FieldStore σ} {c : Contents} (reflects : f.Reflects view c)
      (unused : ∀ k, IsPool ns k → c k.text.toUTF8 = none) : Reachable view ns {} f
  | step {l : Ledger} {f : FieldStore σ} (m : Move σ) (h : Reachable view ns l f)
      (allowed : m.Allowed view ns l f) : Reachable view ns (m.enter ns f l) (m.apply ns f)

/-! ### The invariant of a run -/

/-- The pool is stored with the free ids of the ledger, and the ids of the ledger are all that were
ever issued. -/
structure Kept (view : Unreliable σ) (ns : FileId) (l : Ledger) (high : Nat) (f : FieldStore σ) :
    Prop where
  reflects : f.Reflects view (view.contents f.store)
  stored : StoredIn (view.contents f.store) ns l.freed high
  covers : Covers l.live l.freed high
  fits : high < Word.size64

variable {view : Unreliable σ} {l : Ledger} {f : FieldStore σ}

theorem Kept.of_reflects (reflects : f.Reflects view c) (stored : StoredIn c ns l.freed high)
    (covers : Covers l.live l.freed high) (fits : high < Word.size64) : Kept view ns l high f := by
  obtain rfl := reflects.contents
  exact ⟨reflects, stored, covers, fits⟩

theorem Kept.issued (h : Kept view ns l high f) : l.issued = high := h.covers.length

/-- A run starts without any ids. -/
theorem kept_start (reflects : f.Reflects view c)
    (unused : ∀ k, IsPool ns k → c k.text.toUTF8 = none) : Kept view ns {} 0 f := by
  refine .of_reflects reflects ⟨?_, ?_, trivial⟩ (List.Perm.refl []) (by decide)
  · rw [Contents.count?, Contents.read, unused _ (Or.inl rfl)]
  · rw [Contents.count?, Contents.read, unused _ (Or.inr (Or.inl rfl))]
    rfl

/-- An id comes out of the free ones, or was never issued. -/
theorem Issued.eq {id : NodeId} {stack' : List NodeId} {high' : Nat}
    (h : Issued stack high id stack' high') :
    id = stack.head?.getD (high + 1) ∧ stack' = stack.erase id := by
  cases h with
  | recycled => exact ⟨rfl, (List.erase_cons_head ..).symm⟩
  | fresh => exact ⟨rfl, rfl⟩

/-- The error is one of the byte store. -/
def FromStore (σ : Type) [ByteStore σ] (e : Failure) : Prop :=
  ∃ reason, e = .error reason ∧ ByteStore.Reports σ reason

/-- A script that succeeds on the contents fails for nothing but the store, at one of its stops. -/
theorem perform_of_run {α : Type} {s : Script α} {a : α} (h : f.Reflects view c)
    (run : s.run c = .ok a c') :
    Meets (fun a' f' => a' = a ∧ f'.Reflects view c')
      (fun e f' => FromStore σ e ∧ ∃ c₁ ∈ s.stops c, f'.Reflects view c₁)
      (FieldStore.perform s f) := by
  refine (FieldStore.perform_unreliable h s).mono ?_ ?_
  · rintro a' f' ⟨c₁, run', reflects⟩
    rw [run] at run'
    cases run'
    exact ⟨rfl, reflects⟩
  · rintro e f' (⟨c₁, run', -⟩ | ⟨reason, rfl, reports, stopped⟩)
    · rw [run] at run'
      cases run'
    · exact ⟨⟨reason, rfl, reports⟩, stopped⟩

/-- The top of the stack is issued, or else the next fresh id; or the call failed for the byte store,
and everything is as before. -/
theorem Kept.allocate (h : Kept view ns l high f) (room : l.issued + 1 < Word.size64) :
    Meets (fun id f' => id ∉ l.live ∧ id = l.freed.head?.getD (high + 1) ∧
        ∃ high', Kept view ns ⟨id :: l.live, l.freed.erase id⟩ high' f')
      (fun e f' => FromStore σ e ∧ Kept view ns l high f')
      (FieldStore.perform (allocate ns) f) := by
  have length := h.covers.length
  rw [h.issued] at room
  obtain ⟨id, stack, high', c', run, issued, stored, -⟩ :=
    run_allocate h.stored (by omega) room
  refine (perform_of_run h.reflects run).mono ?_ ?_
  · rintro id f' ⟨rfl, reflects⟩
    have covers := issued.covers h.covers
    have bound := issued.high_le
    obtain ⟨top, rfl⟩ := issued.eq
    have fresh : id ∉ l.live := by
      have nodup := covers.nodup
      rw [List.cons_append, List.nodup_cons, List.mem_append] at nodup
      exact fun mem => nodup.1 (Or.inl mem)
    exact ⟨fresh, top, high', .of_reflects reflects stored covers (by omega)⟩
  · rintro e f' ⟨failed, c₁, mem, reflects⟩
    obtain rfl := mem_stops_allocate mem
    exact ⟨failed, .of_reflects reflects h.stored h.covers h.fits⟩

/-- An id in use is taken back; or the call failed for the byte store, and everything is as before. -/
theorem Kept.free (h : Kept view ns l high f) {id : NodeId} (mem : id ∈ l.live) :
    Meets (fun _ f' => Kept view ns ⟨l.live.erase id, id :: l.freed⟩ high f')
      (fun e f' => FromStore σ e ∧ Kept view ns l high f')
      (FieldStore.perform (IdPool.free ns id) f) := by
  have length := h.covers.length
  have fits := h.fits
  have used := List.length_pos_of_mem mem
  obtain ⟨-, below⟩ := (h.covers.mem_iff id).1 (List.mem_append_left _ mem)
  obtain ⟨c', run, stored, -⟩ := run_free h.stored (Nat.lt_of_le_of_lt below h.fits) (by omega)
  refine (perform_of_run h.reflects run).mono ?_ ?_
  · rintro _ f' ⟨-, reflects⟩
    exact .of_reflects reflects stored (h.covers.release (List.perm_cons_erase mem)) h.fits
  · rintro e f' ⟨failed, c₁, mem, reflects⟩
    exact ⟨failed, .of_reflects reflects (h.stored.of_mem_stops_free mem) h.covers h.fits⟩

/-- What spares the fields of the pool keeps it, wherever it ends. -/
theorem Kept.other (h : Kept view ns l high f) {s : Script Unit} (spares : s.Spares (IsPool ns)) :
    Kept view ns l high (leftBy (FieldStore.perform s f)) := by
  have keeps : ∀ c₁, Contents.Changes (fun k => ¬ IsPool ns k) (view.contents f.store) c₁ →
      StoredIn c₁ ns l.freed high :=
    fun c₁ changes => h.stored.frame changes fun _ => id
  have left := spares.changes (view.contents f.store)
  have outcome := FieldStore.perform_unreliable h.reflects s
  cases performed : FieldStore.perform s f with
  | ok a f' =>
    obtain ⟨c₁, run, reflects⟩ := outcome.of_ok performed
    rw [run] at left
    exact .of_reflects reflects (keeps c₁ left) h.covers h.fits
  | error e f' =>
    rcases outcome.of_error performed with ⟨c₁, run, reflects⟩ | ⟨reason, -, -, c₁, mem, reflects⟩
    · rw [run] at left
      exact .of_reflects reflects (keeps c₁ left) h.covers h.fits
    · exact .of_reflects reflects (keeps c₁ (spares.changes_of_mem_stops mem)) h.covers h.fits

/-- Every move keeps the pool in step with the ledger. -/
theorem Kept.step (h : Kept view ns l high f) {m : Move σ} (allowed : m.Allowed view ns l f) :
    ∃ high', Kept view ns (m.enter ns f l) high' (m.apply ns f) := by
  cases m with
  | allocate =>
    have outcome := h.allocate allowed
    rw [Move.enter, Move.apply]
    cases performed : FieldStore.perform (IdPool.allocate ns) f with
    | ok id f' => exact (outcome.of_ok performed).2.2
    | error e f' => exact ⟨high, (outcome.of_error performed).2⟩
  | free id =>
    have outcome := h.free allowed
    rw [Move.enter, Move.apply]
    cases performed : FieldStore.perform (IdPool.free ns id) f with
    | ok _ f' => exact ⟨high, outcome.of_ok performed⟩
    | error e f' => exact ⟨high, (outcome.of_error performed).2⟩
  | clearCache => exact ⟨high, h.reflects.clearCache, h.stored, h.covers, h.fits⟩
  | other s => exact ⟨high, h.other allowed⟩
  | disturb store =>
    exact ⟨high, .of_reflects (h.reflects.withStore allowed.1 allowed.2) h.stored h.covers h.fits⟩

/-- Along every run the pool is in step with the ledger. -/
theorem Reachable.kept (h : Reachable view ns l f) : ∃ high, Kept view ns l high f := by
  induction h with
  | start reflects unused => exact ⟨0, kept_start reflects unused⟩
  | step m _ allowed ih =>
    obtain ⟨high, kept⟩ := ih
    exact kept.step allowed

/-! ### What a run can rely on -/

/-- Along every run the ids in use and the free ones are the numbers from one to the largest id ever
issued, each once, and the fields of the pool say so. An id that is issued was not in use: it is the
one that was freed last and is still free, or else the next number. A call fails only for the byte
store; wherever it was cut short, the ids in use, the free ones and the largest id are as before. -/
theorem issues_no_id_twice (h : Reachable view ns l f) :
    ∃ high, Kept view ns l high f ∧
      (highWater ns).run (view.contents f.store) = .ok high (view.contents f.store) ∧
      (freeCount ns).run (view.contents f.store) = .ok l.freed.length (view.contents f.store) ∧
      (l.live ++ l.freed).Nodup ∧ (∀ id, id ∈ l.live ++ l.freed ↔ 1 ≤ id ∧ id ≤ high) ∧
      (l.issued + 1 < Word.size64 →
        Meets (fun id _ => id ∉ l.live ∧ id = l.freed.head?.getD (high + 1))
          (fun e f' => FromStore σ e ∧ Kept view ns l high f')
          (FieldStore.perform (allocate ns) f)) ∧
      ∀ id ∈ l.live, Meets (fun _ _ => True) (fun e f' => FromStore σ e ∧ Kept view ns l high f')
        (FieldStore.perform (IdPool.free ns id) f) := by
  obtain ⟨high, kept⟩ := h.kept
  refine ⟨high, kept, Script.run_count kept.stored.highWater,
    Script.run_count kept.stored.freeCount, kept.covers.nodup, kept.covers.mem_iff, ?_, ?_⟩
  · intro room
    exact (kept.allocate room).mono (fun _ _ issued => ⟨issued.1, issued.2.1⟩) fun _ _ => id
  · intro id mem
    exact (kept.free mem).mono (fun _ _ _ => trivial) fun _ _ failed => failed

/-- Another allowance of writes is a store that fails elsewhere. -/
theorem Reachable.allow {f : FieldStore Faulty} (h : Reachable .faulty ns l f)
    (writesLeft : Option Nat) : Reachable .faulty ns l { f with store.writesLeft := writesLeft } := by
  have allowed : (Move.disturb { f.store with writesLeft }).Allowed .faulty ns l f := ⟨trivial, rfl⟩
  exact h.step _ allowed

/-- Two ids are in use, and giving the first one back fails between its two writes. The id is still in
use, and the next call issues a third one. -/
theorem free_cut_short_gives_nothing_back :
    ∃ f f' : FieldStore Faulty, ∃ e, Reachable .faulty 7 ⟨[2, 1], []⟩ f ∧
      FieldStore.perform (IdPool.free 7 1) f = .error e f' ∧ FromStore Faulty e ∧
      f'.store.writesLeft = some 0 ∧ Kept .faulty 7 ⟨[2, 1], []⟩ 2 f' ∧
      Meets (fun id _ => id = 3) (fun _ _ => False)
        (FieldStore.perform (allocate 7) { f' with store.writesLeft := none }) := by
  set f₀ : FieldStore Faulty := { store := {} }
  have fresh : ∀ key, f₀.cache.value? key = none := fun _ => Std.TreeMap.getElem?_emptyc
  have unused : ∀ k, IsPool 7 k → Unreliable.faulty.contents f₀.store k.text.toUTF8 = none :=
    fun _ _ => Std.TreeMap.getElem?_emptyc
  have start := Reachable.start (FieldStore.reflects_of_fresh trivial fresh) unused
  have one := start.step .allocate (show Ledger.issued _ + 1 < Word.size64 by decide)
  have two := one.step .allocate (show Ledger.issued _ + 1 < Word.size64 by decide +kernel)
  set f₂ := Move.apply 7 (Move.apply 7 f₀ .allocate) .allocate
  have ledger : Move.enter 7 (Move.apply 7 f₀ .allocate) (Move.enter 7 f₀ {} .allocate) .allocate =
      ⟨[2, 1], []⟩ := by
    decide +kernel
  rw [ledger] at two
  -- One more write is served: that of the slot, but not that of the count.
  have due := two.allow (some 1)
  set f : FieldStore Faulty := { f₂ with store.writesLeft := some 1 }
  obtain ⟨high, kept, -, -, -, -, -, frees⟩ := issues_no_id_twice due
  obtain rfl : 2 = high := kept.issued
  have fails : Meets (fun _ _ => False) (fun _ f' => f'.store.writesLeft = some 0 ∧
      Meets (fun id _ => id = 3) (fun _ _ => False)
        (FieldStore.perform (allocate 7) { f' with store.writesLeft := none }))
      (FieldStore.perform (IdPool.free 7 1) f) := by
    decide +kernel
  obtain ⟨e, f', performed, served, next⟩ := fails.exists_error
  obtain ⟨reason, kept'⟩ := (frees 1 (by decide)).of_error performed
  exact ⟨f, f', e, due, performed, reason, served, kept', next⟩

end FlatStore.IdPool
