import FlatStore.Proofs.Database.Actions
import FlatStore.Proofs.Oversized
import FlatStore.Proofs.Uncached

/-! # Databases that cannot be told apart

    Two databases are alike if both follow one byte store: their stores differ in
    nothing that a later call could tell, and every cached text is the stored one
    (`Database.Alike`). What was only read may differ, and so may the caches.

    * **The stores** behind a database keep the laws of byte stores, with all
      that a log holds as its state (`Backend.laws`).
    * **Step**: one action on two databases that are alike gives the same, and
      leaves them alike (`Alike.attempt`). An action on one of them alone leaves
      them alike if it writes nothing (`Alike.silent`).
    * **Closing** either of two databases that are alike leaves the same disk
      behind (`Alike.close_eq`).
-/

namespace FlatStore

/-! ### The laws of both kinds of store -/

theorem SameOutcome.refl {ε σ τ α : Type} (f : σ → τ) (result : EStateM.Result ε σ α) :
    SameOutcome (f · = f ·) result result := by
  cases result with
  | ok a s => exact .ok a rfl
  | error e s => exact .error e rfl

namespace Backend

variable {origin b b' : Backend}

/-- All of a store that later calls can tell. Reads leave a log as it is; a memory store counts
them. -/
def state : Backend → (Contents × Disk) ⊕ LogStore
  | .memory store disk => .inl (fun key => store.get? key, disk)
  | .log store => .inr store

theorem contents_of_state (same : b.state = b'.state) : b.contents = b'.contents := by
  cases b with
  | memory store disk =>
    cases b' with
    | memory store' disk' => exact congrArg Prod.fst (Sum.inl.inj same)
    | log => cases same
  | log store =>
    cases b' with
    | memory => cases same
    | log store' => rw [Sum.inr.inj same]

/-- Both kinds of store keep the laws. -/
def laws (origin : Backend) : StoreLaws Backend where
  State := (Contents × Disk) ⊕ LogStore
  state := state
  contents := contents
  contents_same _ _ := contents_of_state
  sound := origin.Later
  read b key h := by
    cases h with
    | memory => exact ⟨_, rfl, .memory, rfl⟩
    | log later => exact ⟨_, rfl, .log later, rfl⟩
  write b key value h := by
    by_cases takes : origin.Takes key value
    · obtain ⟨b', run, later, contents⟩ := write_taken h takes
      rw [run]
      exact ⟨later, contents⟩
    · cases h with
      | memory => exact absurd trivial takes
      | @log _ s later =>
        obtain ⟨detail, refused⟩ := LogStore.write_oversized (s := s) takes
        have run : ByteStore.write key value (Backend.log s) =
            .error (.serialization detail) (.log s) := use_log_of_error refused
        rw [run]
        exact ⟨.log later, rfl⟩
  write_same b b' key value h h' same := by
    cases h with
    | @memory _ m disk =>
      cases h' with
      | @memory _ m' =>
        have entries := Sum.inl.inj same
        have left := (StoreLaws.memory.write_same m m' key value trivial trivial
          (congrArg Prod.fst entries)).left
        exact .ok () (congrArg (fun c => Sum.inl (c, disk)) left)
    | log later =>
      cases h' with
      | log later' =>
        cases Sum.inr.inj same
        exact .refl state _
  flush b h := by
    obtain ⟨b', run, later, contents⟩ := flush_later h
    rw [run]
    exact ⟨later, contents⟩
  flush_same b b' h h' same := by
    cases h with
    | memory =>
      cases h' with
      | memory => exact .ok () same
    | log later =>
      cases h' with
      | log later' =>
        cases Sum.inr.inj same
        exact .refl state _

/-- A compaction has the same outcome on both. -/
theorem compact_same (h : origin.Later b) (h' : origin.Later b') (same : b.state = b'.state) :
    SameOutcome (·.state = ·.state) (compact b) (compact b') := by
  cases h with
  | memory =>
    cases h' with
    | memory => exact .ok 0 same
  | log later =>
    cases h' with
    | log later' =>
      cases Sum.inr.inj same
      exact .refl state _

theorem release_of_state (same : b.state = b'.state) : b.release = b'.release := by
  cases b with
  | memory store disk =>
    cases b' with
    | memory store' disk' => exact congrArg Prod.snd (Sum.inl.inj same)
    | log => cases same
  | log store =>
    cases b' with
    | memory => cases same
    | log store' => rw [Sum.inr.inj same]

end Backend

/-! ### Scripts that write nothing -/

namespace Uncached

/-- A script that writes nothing leaves all that later calls can tell as it was. -/
theorem perform_silent {α : Type} {origin b : Backend} {s : Script α} (later : origin.Later b)
    (silent : s.writes b.contents = []) : (leftBy (perform s b)).state = b.state := by
  induction s generalizing b with
  | done | fail => rfl
  | read key next ih =>
    obtain ⟨b₁, read, later₁, same⟩ :
        ∃ b₁, ByteStore.read key.toUTF8 b = .ok (b.contents key.toUTF8) b₁ ∧ origin.Later b₁ ∧
          b₁.state = b.state := (Backend.laws origin).read b key.toUTF8 later
    have stays : ∀ found, (next found).writes b.contents = [] →
        (leftBy (perform (next found) b₁)).state = b.state := by
      intro found silent
      rw [← Backend.contents_of_state same] at silent
      exact (ih found later₁ silent).trans same
    rw [Script.writes] at silent
    unfold perform get
    simp only [read]
    cases there : b.contents key.toUTF8 with
    | none =>
      have absent : b.contents.read key = .ok none := by
        rw [Contents.read, there]
      rw [absent] at silent
      exact stays none silent
    | some bytes =>
      simp only
      cases decoded : Utf8.decode bytes with
      | error fault => exact same
      | ok text =>
        have found : b.contents.read key = .ok (some text) := by
          simp only [Contents.read, there, decoded]
        rw [found] at silent
        exact stays (some text) silent
  | write => cases silent

end Uncached

/-! ### Two databases -/

namespace FieldStore

variable {origin b b' s : Backend} {f : FieldStore Backend}

/-- A store that calls cannot tell from the one that is followed is followed as well. -/
theorem Follows.of_state (h : Follows (Backend.laws origin) f b) (later : origin.Later b')
    (same : b.state = b'.state) : Follows (Backend.laws origin) f b' :=
  ⟨h.sound, later, h.same.trans same, h.coherent⟩

/-- As long as the contents stay, what is cached stays right. -/
theorem Follows.withStore (h : Follows (Backend.laws origin) f b) (later : origin.Later s)
    (contents : s.contents = f.store.contents) (later' : origin.Later b')
    (same : s.state = b'.state) : Follows (Backend.laws origin) { f with store := s } b' := by
  refine ⟨later, later', same, ?_⟩
  intro key value cached
  show s.contents key.toUTF8 = _
  rw [contents]
  exact h.coherent key value cached

end FieldStore

namespace Database

/-- Nothing that either database gives from now on tells the two apart. -/
def Alike (origin : Backend) (db db' : Database) : Prop :=
  ∃ b, FieldStore.Follows (Backend.laws origin) db.fields b ∧
    FieldStore.Follows (Backend.laws origin) db'.fields b

variable {origin : Backend} {db db' : Database} {r : Request}

/-- A database is like itself. -/
theorem Shows.alike (h : db.Shows origin db.contents) : Alike origin db db := by
  have follows : FieldStore.Follows (Backend.laws origin) db.fields db.fields.store :=
    ⟨h.sound, h.sound, rfl, h.cached⟩
  exact ⟨_, follows, follows⟩

namespace Alike

theorem contents_eq (h : Alike origin db db') : db.contents = db'.contents := by
  obtain ⟨b, follows, follows'⟩ := h
  exact follows.contents.trans follows'.contents.symm

theorem state_eq (h : Alike origin db db') : db.fields.store.state = db'.fields.store.state := by
  obtain ⟨b, follows, follows'⟩ := h
  exact follows.same.trans follows'.same.symm

/-- A compaction has the same outcome on both. -/
theorem attempt_compact (h : Alike origin db db') :
    (db.attempt .compact).1 = (db'.attempt .compact).1 ∧
      Alike origin (db.attempt .compact).2 (db'.attempt .compact).2 := by
  have same := h.state_eq
  obtain ⟨b, follows, follows'⟩ := h
  have kept := Backend.compact_later follows.sound
  have kept' := Backend.compact_later follows'.sound
  have outcome := Backend.compact_same follows.sound follows'.sound same
  unfold attempt
  simp only [execute, compact, onBackend]
  generalize Backend.compact db.fields.store = result at kept outcome
  generalize Backend.compact db'.fields.store = result' at kept' outcome
  cases outcome with
  | @ok s s' saved same =>
    exact ⟨rfl, s', follows.withStore kept.1 kept.2 kept'.1 same,
      follows'.withStore kept'.1 kept'.2 kept'.1 rfl⟩
  | @error s s' e same =>
    exact ⟨rfl, s', follows.withStore kept.1 kept.2 kept'.1 same,
      follows'.withStore kept'.1 kept'.2 kept'.1 rfl⟩

/-- An action has the same outcome on both, and leaves them alike. -/
theorem attempt (h : Alike origin db db') (a : Action) :
    (db.attempt a).1 = (db'.attempt a).1 ∧ Alike origin (db.attempt a).2 (db'.attempt a).2 := by
  cases a with
  | compact => exact h.attempt_compact
  | request r =>
    obtain ⟨b, follows, follows'⟩ := h
    have outcome := FieldStore.perform_follows follows r.script
    have outcome' := FieldStore.perform_follows follows' r.script
    unfold Database.attempt
    simp only [execute, perform, onFields]
    generalize FieldStore.perform r.script db.fields = result at outcome
    generalize FieldStore.perform r.script db'.fields = result' at outcome'
    generalize Uncached.perform r.script b = uncached at outcome outcome'
    cases outcome with
    | ok out follows =>
      cases outcome' with
      | ok _ follows' => exact ⟨rfl, _, follows, follows'⟩
    | error e follows =>
      cases outcome' with
      | error _ follows' => exact ⟨rfl, _, follows, follows'⟩

/-- A request that writes nothing leaves its database like the other one. -/
theorem silent (h : Alike origin db db') (silent : r.script.writes db.contents = []) :
    Alike origin (db.attempt (.request r)).2 db' := by
  obtain ⟨b, follows, follows'⟩ := h
  have left : FieldStore.Follows (Backend.laws origin)
      (leftBy (FieldStore.perform r.script db.fields)) (leftBy (Uncached.perform r.script b)) :=
    (FieldStore.perform_follows follows r.script).left
  have same : db.contents = b.contents := follows.contents
  rw [same] at silent
  have unchanged := Uncached.perform_silent follows.sound_uncached silent
  refine ⟨b, ?_, follows'⟩
  have fields : (db.attempt (.request r)).2.fields =
      leftBy (FieldStore.perform r.script db.fields) := by
    unfold Database.attempt
    simp only [execute, perform, onFields]
    cases FieldStore.perform r.script db.fields <;> rfl
  rw [fields]
  exact left.of_state follows.sound_uncached unchanged

/-- Closing has the same outcome on both. -/
theorem close_eq (h : Alike origin db db') : db.close = db'.close := by
  obtain ⟨b, follows, follows'⟩ := h
  have outcome := FieldStore.flush_follows follows
  have outcome' := FieldStore.flush_follows follows'
  unfold close flush onFields
  generalize FieldStore.flush db.fields = result at outcome
  generalize FieldStore.flush db'.fields = result' at outcome'
  generalize (ByteStore.flush : EStateM Error Backend Unit) b = flushed at outcome outcome'
  cases outcome with
  | ok _ follows =>
    cases outcome' with
    | ok _ follows' =>
      exact congrArg (Prod.mk _) (Backend.release_of_state (follows.same.trans follows'.same.symm))
  | error e follows =>
    cases outcome' with
    | error _ follows' =>
      exact congrArg (Prod.mk _) (Backend.release_of_state (follows.same.trans follows'.same.symm))

end Alike

end Database

end FlatStore
