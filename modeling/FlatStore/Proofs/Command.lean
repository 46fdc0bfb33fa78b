import FlatStore.Console.Invocation
import FlatStore.Proofs.Numeral

/-! # What command lines stand for

    Reading a line follows the grammar to a command and collects values on the
    way (`Grammar.readFrom_sound`): no parameter is without a value, and each
    positional parameter of the command has one.

    So the actions that words stand for, those of a line or of a process, are
    sound (`Action.Spelled.sound`): a tree key has a component, the orders on the
    line are some and as many as the key has components, and numbers are within
    their range.
-/

namespace FlatStore

/-! ### Calls that can fail -/

/-- A sequence that succeeds has steps that do. -/
theorem Except.of_bind_ok {ε α β : Type} {x : Except ε α} {f : α → Except ε β} {b : β}
    (h : (x >>= f) = .ok b) : ∃ a, x = .ok a ∧ f a = .ok b := by
  cases x with
  | error e => cases h
  | ok a => exact ⟨a, rfl, h⟩

namespace Command

/-! ### Values are there -/

/-- No parameter is without a value. -/
def Filled (values : List (String × List String)) : Prop := ∀ v ∈ values, v.2 ≠ []

theorem Filled.lookup {values : List (String × List String)} (h : Filled values) {name : String}
    {words : List String} (found : values.lookup name = some words) : words ≠ [] := by
  obtain ⟨before, after, rfl, -⟩ := List.lookup_eq_some_iff.1 found
  exact h (name, words) (by simp)

namespace Reading

variable {r r' : Reading} {shared : Shared} {g : Grammar}

theorem filled_record (h : Filled r.values) (name : String) {new : List String}
    (some_new : new ≠ []) : Filled (r.record name new).values := by
  intro v hv
  rcases List.mem_cons.1 hv with rfl | hv
  · exact List.append_ne_nil_of_right_ne_nil _ some_new
  · exact h v hv

theorem filled_settle (h : Filled r.values) (run : r.settle = .ok r') : Filled r'.values := by
  unfold settle at run
  split at run
  · cases run
    exact h
  · next p words _ =>
    split at run
    · cases run
    · next some_words =>
      split at run
      · cases run
      · split at run
        · cases run
          exact filled_record h p.name (by simpa using some_words)
        · cases run

theorem filled_option (h : Filled r.values) {p : Parameter} {value : Option String}
    (run : r.option p value = .ok r') : Filled r'.values := by
  obtain ⟨r₁, settled, run⟩ := Except.of_bind_ok run
  have filled := filled_settle h settled
  cases value with
  | none =>
    cases run
    exact filled
  | some word =>
    simp only at run
    exact filled_settle (by exact filled) run

theorem filled_switch (h : Filled r.values) {s : Switch} (run : r.switch s = .ok r') :
    Filled r'.values := by
  obtain ⟨r₁, settled, run⟩ := Except.of_bind_ok run
  have filled := filled_settle h settled
  split at run
  · cases run
  · cases run
    exact filled_record filled s.name (by simp)

theorem help_ne_ok : r.help ≠ .ok r' := by
  intro run
  obtain ⟨r₁, -, run⟩ := Except.of_bind_ok run
  cases run

theorem filled_long (h : Filled r.values) {name : String} {value : Option String}
    (run : r.long shared g name value = .ok r') : Filled r'.values := by
  unfold long at run
  split at run
  · exact filled_option h run
  · split at run
    · split at run
      · cases run
      · exact filled_switch h run
    · split at run
      · cases run
      · split at run
        · cases run
        · exact absurd run help_ne_ok

theorem filled_letters (h : Filled r.values) {cs : List Char}
    (run : r.letters shared cs = .ok r') : Filled r'.values := by
  induction cs generalizing r with
  | nil =>
    cases run
    exact h
  | cons c rest ih =>
    rw [letters] at run
    split at run
    · obtain ⟨r₁, switched, run⟩ := Except.of_bind_ok run
      exact ih (filled_switch h switched) run
    · split at run
      · exact absurd run help_ne_ok
      · cases run

theorem filled_positional (h : Filled r.values) {word : String}
    (run : r.positional g word = .ok r') : Filled r'.values := by
  -- A word that waits is not a value yet.
  have waits : ∀ next : Reading → Except UsageError Reading,
      (∀ r₁ r₂, next r₁ = .ok r₂ → r₂.values = r₁.values) → (r.settle >>= next) = .ok r' →
      Filled r'.values := by
    intro next same run
    obtain ⟨r₁, settled, run⟩ := Except.of_bind_ok run
    rw [same r₁ r' run]
    exact filled_settle h settled
  unfold positional at run
  split at run
  · cases run
  · next p _ =>
    simp only at run
    -- Whether the parameter takes more words tells where the reading goes on, not what it holds.
    by_cases many : p.many = true
    · simp only [many, Bool.and_true, if_true] at run
      split at run
      · split at run
        · cases run
          exact h
        · exact waits _ (fun _ _ next => by cases next; rfl) run
      · exact waits _ (fun _ _ next => by cases next; rfl) run
    · simp only [many, Bool.and_false, Bool.false_eq_true, if_false] at run
      split at run <;> exact waits _ (fun _ _ next => by cases next; rfl) run

theorem filled_take (h : Filled r.values) {word : String} (run : r.take shared g word = .ok r') :
    Filled r'.values := by
  have plain : ∀ {r'}, r.plain g word = .ok r' → Filled r'.values := by
    intro r' run
    unfold Reading.plain at run
    split at run
    · cases run
      exact h
    · exact filled_positional h run
  unfold take at run
  split at run
  · exact filled_positional h run
  · split at run
    · cases run
      exact h
    · exact filled_long h run
    · split at run
      · exact plain run
      · exact filled_letters h run
    · exact plain run

/-- At the end of a command every positional parameter has a value. -/
theorem finish_sound (h : Filled r.values) (run : r.finish g = .ok r') :
    Filled r'.values ∧ ∀ p ∈ g.positionals, (r'.values.lookup p.name).isSome := by
  obtain ⟨r₁, settled, run⟩ := Except.of_bind_ok run
  have filled := filled_settle h settled
  cases g with
  | group name required members =>
    cases required with
    | true => cases run
    | false =>
      cases run
      exact ⟨filled, fun p hp => by cases hp⟩
  | command name positionals options =>
    simp only at run
    split at run
    · next all =>
      cases run
      exact ⟨filled, List.all_eq_true.1 all⟩
    · cases run

end Reading

/-! ### The way to a command -/

namespace Grammar

/-- The command or group that words lead to. -/
def at? (g : Grammar) : List String → Option Grammar
  | [] => some g
  | word :: path => (g.member? word).bind (at? · path)

theorem member?_name {g member : Grammar} {word : String} (h : g.member? word = some member) :
    g.member? member.name = some member := by
  have called := List.find?_some h
  rw [of_decide_eq_true called]
  exact h

/-- A line that is read leads to a place of the grammar where every positional parameter has a
value. -/
theorem readFrom_sound {shared : Shared} {g : Grammar} {r : Reading} {words : List String}
    {m : Matched} (h : Filled r.values) (run : g.readFrom shared r words = .ok m) :
    Filled m.values ∧ ∃ command, g.at? m.path = some command ∧
      ∀ p ∈ command.positionals, (m.values.lookup p.name).isSome := by
  induction words generalizing g r m with
  | nil =>
    obtain ⟨r', finished, run⟩ := Except.of_bind_ok run
    cases run
    obtain ⟨filled, all⟩ := Reading.finish_sound h finished
    exact ⟨filled, g, rfl, all⟩
  | cons word rest ih =>
    rw [readFrom] at run
    split at run
    · cases run
    · split at run
      · next member called =>
        obtain ⟨inner, read, run⟩ := Except.of_bind_ok run
        obtain ⟨r', settled, run⟩ := Except.of_bind_ok run
        cases run
        obtain ⟨filled, command, way, all⟩ := ih (fun v hv => by cases hv) read
        have outer := Reading.filled_settle h settled
        have member? : g.member? word = some member := by
          split at called
          · exact called
          · cases called
        refine ⟨?_, command, ?_, ?_⟩
        · intro v hv
          rcases List.mem_append.1 hv with hv | hv
          · exact filled v hv
          · exact outer v hv
        · rw [at?, member?_name member?]
          exact way
        · intro p hp
          simp only [List.lookup_append, Option.isSome_or, all p hp, Bool.true_or]
      · obtain ⟨r', taken, run⟩ := Except.of_bind_ok run
        exact ih (Reading.filled_take h taken) run

end Grammar

end Command

/-! ### Sound actions -/

/-- What a line makes sure of: a key has a component, orders are some and as many as the key has
components, and the numbers of trees and those that are stored are within their range. -/
def Request.Sound : Request → Prop
  | .counterSet _ _ value => -(Word.half64 : Int) ≤ value ∧ value < Word.half64
  | .listAdd _ _ value => -(Word.half32 : Int) ≤ value ∧ value < Word.half32
  | .treeInsert ns orders key _ | .treeDelete ns orders key | .treeGet ns orders key =>
    ns < Word.size64 ∧ key ≠ [] ∧ ∀ os ∈ orders, os.length = key.length
  | .treeList _ orders => ∀ os ∈ orders, os ≠ []
  | _ => True

/-- A sound request, or compacting the log. -/
def Action.Sound : Action → Prop
  | .request r => r.Sound
  | .compact => True

theorem KeyOrder.parseList_ne_nil {s : String} {orders : List KeyOrder}
    (h : parseList s = .ok orders) : orders ≠ [] := by
  have parts : Text.splitCommas s ≠ [] := by
    unfold Text.splitCommas
    rw [ne_eq, List.map_eq_nil_iff]
    exact List.splitOn_ne_nil _ _
  unfold parseList at h
  cases split : Text.splitCommas s with
  | nil => exact absurd split parts
  | cons part rest =>
    rw [split, List.mapM_cons] at h
    obtain ⟨order, -, h⟩ := Except.of_bind_ok h
    obtain ⟨orders', -, h⟩ := Except.of_bind_ok h
    cases h
    exact List.cons_ne_nil _ _

namespace Command.Matched

variable {m : Matched}

theorem number_eq_ok {α : Type} {parse : String → Except Integer.Fault α} {name : String} {n : α}
    (h : m.number parse name = .ok n) : ∃ text, parse text = .ok n := by
  obtain ⟨text, -, h⟩ := Except.of_bind_ok h
  refine ⟨text, ?_⟩
  split at h
  · next found parsed =>
    cases h
    exact parsed
  · cases h

theorem orders_eq_ok {components : Nat} {orders : Option (List KeyOrder)}
    (h : m.orders components = .ok orders) :
    ∀ os ∈ orders, os ≠ [] ∧ (0 < components → os.length = components) := by
  intro os hos
  unfold Matched.orders at h
  split at h
  · cases h
    cases hos
  · next raw _ =>
    split at h
    · cases h
    · next parsed hparsed =>
      split at h
      · cases h
      · next fits =>
        cases h
        cases hos
        refine ⟨KeyOrder.parseList_ne_nil hparsed, ?_⟩
        intro positive
        exact Classical.not_not.1 fun differ => fits ⟨positive, differ⟩

theorem keyed_sound {ns : FileId} {orders : Option (List KeyOrder)} (some_key : m.key ≠ [])
    (number : m.nat "ns" = .ok ns) (h : m.orders m.key.length = .ok orders) :
    ns < Word.size64 ∧ m.key ≠ [] ∧ ∀ os ∈ orders, os.length = m.key.length := by
  obtain ⟨text, read⟩ := number_eq_ok number
  refine ⟨Integer.unsigned64_lt read, some_key, ?_⟩
  intro os hos
  exact (orders_eq_ok h os hos).2 (List.length_pos_iff.2 some_key)

/-- The commands that take a tree key. -/
def Keyed (m : Matched) : Prop :=
  m.path = ["tree", "insert"] ∨ m.path = ["tree", "delete"] ∨ m.path = ["tree", "get"]

theorem request_sound {r : Request} (keyed : m.Keyed → m.key ≠ []) (h : m.request = .ok r) :
    r.Sound := by
  unfold Matched.request at h
  simp only at h
  split at h
  case h_4 =>
    obtain ⟨id, -, h⟩ := Except.of_bind_ok h
    obtain ⟨value, stored, h⟩ := Except.of_bind_ok h
    cases h
    obtain ⟨text, read⟩ := number_eq_ok stored
    exact (Integer.intWithin_sound (by decide) read).2
  case h_10 =>
    obtain ⟨id, -, h⟩ := Except.of_bind_ok h
    obtain ⟨value, stored, h⟩ := Except.of_bind_ok h
    cases h
    obtain ⟨text, read⟩ := number_eq_ok stored
    exact (Integer.intWithin_sound (by decide) read).2
  case h_14 path =>
    obtain ⟨ns, number, h⟩ := Except.of_bind_ok h
    obtain ⟨orders, ordered, h⟩ := Except.of_bind_ok h
    obtain ⟨data, -, h⟩ := Except.of_bind_ok h
    cases h
    exact keyed_sound (keyed (Or.inl path)) number ordered
  case h_15 path =>
    obtain ⟨ns, number, h⟩ := Except.of_bind_ok h
    obtain ⟨orders, ordered, h⟩ := Except.of_bind_ok h
    cases h
    exact keyed_sound (keyed (Or.inr (Or.inl path))) number ordered
  case h_16 path =>
    obtain ⟨ns, number, h⟩ := Except.of_bind_ok h
    obtain ⟨orders, ordered, h⟩ := Except.of_bind_ok h
    cases h
    exact keyed_sound (keyed (Or.inr (Or.inr path))) number ordered
  case h_17 =>
    obtain ⟨ns, -, h⟩ := Except.of_bind_ok h
    obtain ⟨orders, ordered, h⟩ := Except.of_bind_ok h
    cases h
    exact fun os hos => (orders_eq_ok ordered os hos).1
  case h_20 => cases h
  -- The other requests are sound whatever they hold.
  case h_1 | h_3 | h_5 | h_6 | h_13 | h_19 =>
    obtain ⟨_, -, h⟩ := Except.of_bind_ok h
    cases h
    trivial
  case h_2 | h_7 | h_8 | h_9 | h_11 | h_12 | h_18 =>
    obtain ⟨_, -, h⟩ := Except.of_bind_ok h
    obtain ⟨_, -, h⟩ := Except.of_bind_ok h
    cases h
    trivial

end Command.Matched

/-- The commands that take a tree key have a positional parameter for it. -/
theorem Command.Matched.key_ne_nil {m : Matched} {shared : Shared} {required : Bool}
    {words : List String} (read : (Grammar.group "" required commands).read shared words = .ok m)
    (keyed : m.Keyed) : m.key ≠ [] := by
  obtain ⟨filled, command, way, all⟩ := Grammar.readFrom_sound (fun v hv => by cases hv) read
  have has : (m.values.lookup "key").isSome := by
    rcases keyed with path | path | path <;> rw [path] at way <;> cases way <;>
      exact all keyParameter (by decide)
  obtain ⟨parts, found⟩ := Option.isSome_iff_exists.1 has
  rw [key, found]
  exact filled.lookup found

theorem Command.Matched.action_sound {m : Matched} {a : Action} (keyed : m.Keyed → m.key ≠ [])
    (h : m.action = .ok a) : a.Sound := by
  unfold action at h
  split at h
  · cases h
    trivial
  · cases requested : m.request with
    | error fault =>
      rw [requested] at h
      cases h
    | ok r =>
      rw [requested] at h
      cases h
      exact request_sound keyed requested

/-- Words that do not look like options are values as they stand. -/
theorem Command.readLine_mapSet {key value : String} (plain_key : look key = .plain)
    (plain_value : look value = .plain) :
    readLine ["map", "set", key, value] = .ok (.request (.mapSet key value)) := by
  let g : Grammar := .command "set" [textParameter "key", textParameter "value"] []
  let first : Reading := { pending := some (textParameter "key", [key]), position := 1 }
  let second : Reading := {
    values := [("key", [key])], pending := some (textParameter "value", [value]), position := 2 }
  have take₁ : Reading.take {} {} g key = .ok first := by
    unfold Reading.take
    simp only [plain_key]
    rfl
  have take₂ : first.take {} g value = .ok second := by
    unfold Reading.take
    simp only [plain_value]
    rfl
  have inner : g.readFrom {} {} [key, value] = .ok ⟨[], [("value", [value]), ("key", [key])]⟩ := by
    show (Reading.take {} {} g key >>= fun r => g.readFrom {} r [value]) = _
    rw [take₁]
    show (first.take {} g value >>= fun r => g.readFrom {} r []) = _
    rw [take₂]
    rfl
  have line : lineGrammar.read {} ["map", "set", key, value] =
      .ok ⟨["map", "set"], [("value", [value]), ("key", [key])]⟩ := by
    show ((g.readFrom {} {} [key, value] >>= fun inner => _) >>= fun inner => _) = _
    rw [inner]
    rfl
  rw [readLine, line]
  rfl

theorem Command.readLine_treeInsert {data : String} (plain : look data = .plain) :
    readLine ["tree", "insert", "1", data, "k"] =
      .ok (.request (.treeInsert 1 none ["k"] data)) := by
  let g : Grammar := .command "insert" [idParameter "ns", textParameter "data", keyParameter]
    [textOption "order"]
  let first : Reading := { pending := some (idParameter "ns", ["1"]), position := 1 }
  let second : Reading := {
    values := [("ns", ["1"])], pending := some (textParameter "data", [data]), position := 2 }
  let third : Reading := {
    values := [("data", [data]), ("ns", ["1"])], pending := some (keyParameter, ["k"])
    awaiting := .more keyParameter, position := 2 }
  have take₁ : Reading.take {} {} g "1" = .ok first := rfl
  have take₂ : first.take {} g data = .ok second := by
    unfold Reading.take
    simp only [plain]
    rfl
  have take₃ : second.take {} g "k" = .ok third := rfl
  have inner : g.readFrom {} {} ["1", data, "k"] =
      .ok ⟨[], [("key", ["k"]), ("data", [data]), ("ns", ["1"])]⟩ := by
    show (Reading.take {} {} g "1" >>= fun r => g.readFrom {} r [data, "k"]) = _
    rw [take₁]
    show (first.take {} g data >>= fun r => g.readFrom {} r ["k"]) = _
    rw [take₂]
    show (second.take {} g "k" >>= fun r => g.readFrom {} r []) = _
    rw [take₃]
    rfl
  have line : lineGrammar.read {} ["tree", "insert", "1", data, "k"] =
      .ok ⟨["tree", "insert"], [("key", ["k"]), ("data", [data]), ("ns", ["1"])]⟩ := by
    show ((g.readFrom {} {} ["1", data, "k"] >>= fun inner => _) >>= fun inner => _) = _
    rw [inner]
    rfl
  rw [readLine, line]
  rfl

/-- An action that some words stand for: those of a line, or those of a process. -/
inductive Action.Spelled : Action → Prop where
  | line {words : List String} {a : Action} (read : Command.readLine words = .ok a) : Spelled a
  | process {words : List String} {i : Console.Invocation} {a : Action}
      (read : Console.Invocation.read words = .ok i) (command : i.command = some (.ok a)) :
      Spelled a

/-- The actions that words stand for are sound. -/
theorem Action.Spelled.sound {a : Action} (h : a.Spelled) : a.Sound := by
  cases h with
  | line read =>
    unfold Command.readLine at read
    split at read
    · cases read
    · next m matched =>
      refine Command.Matched.action_sound (m.key_ne_nil matched) ?_
      cases stands : m.action with
      | error fault =>
        rw [stands] at read
        cases read
      | ok a =>
        rw [stands] at read
        cases read
        rfl
  | process read command =>
    obtain ⟨m, matched, read⟩ := Except.of_bind_ok read
    cases read
    simp only at command
    split at command
    · cases command
    · exact Command.Matched.action_sound (m.key_ne_nil matched) (Option.some.inj command)

end FlatStore
