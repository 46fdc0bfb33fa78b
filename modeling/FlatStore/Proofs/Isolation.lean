import Mathlib
import FlatStore.Proofs.Tree.Footprint

/-! # Structures are isolated

    All structures share one flat space of keys. Still, what the operations on
    one structure give does not depend on the operations on others:

    * **Operations** are called on map entries, counters, flags, lists, and
      namespaces; a namespace holds its recorded orders, a pool, and trees.
      Each stays within its structure (`Operation.within_script`).
    * **Step**: from contents that agree on a structure, its own operations do
      the same, and those of other structures are not seen
      (`perform_own`, `perform_other`).
    * **Run**: so leaving out the operations on other structures changes none
      of its results (`structures_are_isolated`).
-/

namespace FlatStore

/-! ### Operations -/

/-- An operation on a structure, by the type of its result. -/
inductive Operation : Type → Type where
  | readMap (name : String) : Operation (Option String)
  | writeMap (name value : String) : Operation Unit
  | getCounter (id : FileId) (extra : Option String) : Operation Int
  | setCounter (id : FileId) (extra : Option String) (value : Int) : Operation Unit
  | incrementCounter (id : FileId) (extra : Option String) : Operation Int
  | decrementCounter (id : FileId) (extra : Option String) : Operation Int
  | setFlag (id : FileId) (name : String) (extra : Option String) : Operation Unit
  | clearFlag (id : FileId) (name : String) (extra : Option String) : Operation Unit
  | checkFlag (id : FileId) (name : String) (extra : Option String) : Operation Bool
  | readList (id : FileId) (name : Option String) : Operation (List Int)
  | listContains (id : FileId) (name : Option String) (value : Int) : Operation Bool
  | addToList (id : FileId) (name : Option String) (value : Int) : Operation Bool
  | removeFromList (id : FileId) (name : Option String) (value : Int) : Operation Bool
  | highWater (ns : FileId) : Operation Nat
  | freeCount (ns : FileId) : Operation Nat
  | allocate (ns : FileId) : Operation NodeId
  | free (ns : FileId) (id : NodeId) : Operation Unit
  | recordedOrders (ns : FileId) : Operation (Option (List KeyOrder))
  | openTree (ns : FileId) (orders : List KeyOrder) : Operation Tree
  | treeInsert (t : Tree) (key : List String) (data : String) : Operation Unit
  | treeDelete (t : Tree) (key : List String) : Operation Bool
  | treeGet (t : Tree) (key : List String) : Operation (Option String)
  | treeContains (t : Tree) (key : List String) : Operation Bool
  | treeSize (t : Tree) : Operation Nat
  | treeIsEmpty (t : Tree) : Operation Bool
  | treeHeight (t : Tree) : Operation Int
  | treeKeys (t : Tree) : Operation (List String)
  | treeEntries (t : Tree) : Operation (List (List String × String))
  | treeTop (t : Tree) (n : Nat) : Operation (List String)

namespace Operation

variable {α : Type}

/-- What the operation does. -/
def script : Operation α → Script α
  | readMap name => Entry.read name
  | writeMap name value => Entry.write name value
  | getCounter id extra => Counter.read id extra
  | setCounter id extra value => Counter.write id extra value
  | incrementCounter id extra => Counter.increment id extra
  | decrementCounter id extra => Counter.decrement id extra
  | setFlag id name extra => Flag.set id name extra
  | clearFlag id name extra => Flag.clear id name extra
  | checkFlag id name extra => Flag.check id name extra
  | readList id name => IntList.read id name
  | listContains id name value => IntList.contains id name value
  | addToList id name value => IntList.add id name value
  | removeFromList id name value => IntList.remove id name value
  | highWater ns => IdPool.highWater ns
  | freeCount ns => IdPool.freeCount ns
  | allocate ns => IdPool.allocate ns
  | free ns id => IdPool.free ns id
  | recordedOrders ns => Tree.recordedOrders ns
  | openTree ns orders => Tree.openRecorded ns orders
  | treeInsert t key data => t.insert key data
  | treeDelete t key => t.delete key
  | treeGet t key => t.get key
  | treeContains t key => t.contains key
  | treeSize t => Tree.size t.ns
  | treeIsEmpty t => t.isEmpty
  | treeHeight t => t.height
  | treeKeys t => t.keys
  | treeEntries t => t.entries
  | treeTop t n => t.top n

/-- The structure that the operation is called on. -/
def target : Operation α → Structure
  | readMap name | writeMap name _ => .map name
  | getCounter id extra | setCounter id extra _ | incrementCounter id extra
  | decrementCounter id extra => .counter id extra
  | setFlag id name extra | clearFlag id name extra | checkFlag id name extra =>
    .flags id (name ++ Key.optional extra)
  | readList id name | listContains id name _ | addToList id name _ | removeFromList id name _ =>
    .list id name
  | highWater ns | freeCount ns | allocate ns | free ns _ | recordedOrders ns | openTree ns _ =>
    .space ns
  | treeInsert t _ _ | treeDelete t _ | treeGet t _ | treeContains t _ | treeSize t
  | treeIsEmpty t | treeHeight t | treeKeys t | treeEntries t | treeTop t _ => .space t.ns

/-- Every operation stays within the structure that it is called on. -/
theorem within_script (o : Operation α) : o.script.Within o.target := by
  cases o with
  | readMap name => exact (Entry.asks_read name).within
  | writeMap name value => exact Entry.within_write name value
  | getCounter id extra => exact (Counter.asks_read id extra).within
  | setCounter id extra value => exact Counter.within_write id extra value
  | incrementCounter id extra | decrementCounter id extra => exact Counter.within_add id extra _
  | setFlag id name extra => exact Flag.within_set id name extra
  | clearFlag id name extra => exact Flag.within_clear id name extra
  | checkFlag id name extra => exact (Flag.asks_check id name extra).within
  | readList id name => exact (IntList.asks_read id name).within
  | listContains id name value => exact (IntList.asks_contains id name value).within
  | addToList id name value => exact IntList.within_add id name value
  | removeFromList id name value => exact IntList.within_remove id name value
  | highWater ns => exact (IdPool.asks_highWater ns).within
  | freeCount ns => exact (IdPool.asks_freeCount ns).within
  | allocate ns => exact IdPool.within_allocate ns
  | free ns id => exact IdPool.within_free ns id
  | recordedOrders ns => exact (Tree.asks_recordedOrders ns).within
  | openTree ns orders => exact Tree.within_openRecorded ns orders
  | treeInsert t key data => exact Tree.within_insert t key data
  | treeDelete t key => exact Tree.within_delete t key
  | treeGet t key => exact (Tree.asks_get_payload t key).within
  | treeContains t key => exact (Tree.asks_contains t key).within
  | treeSize t => exact (Tree.asks_size t.ns).within
  | treeIsEmpty t => exact (Tree.asks_isEmpty t).within
  | treeHeight t => exact (Tree.asks_height t).within
  | treeKeys t => exact (Tree.asks_keys t).within
  | treeEntries t => exact (Tree.asks_entries t).within
  | treeTop t n => exact (Tree.asks_top t n).within

end Operation

/-! ### Runs -/

/-- An operation with the type of its result. -/
structure Call where
  {α : Type}
  operation : Operation α

namespace Call

/-- The structure that the call is about. -/
def target (call : Call) : Structure := call.operation.target

/-- The calls on one structure. -/
def only (S : Structure) (calls : List Call) : List Call := calls.filter (·.target = S)

/-- What calls one after the other write. -/
def writes : List Call → Contents → List (String × String)
  | [], _ => []
  | call :: calls, c =>
    call.operation.script.writes c ++ writes calls (leftBy (call.operation.script.run c))

end Call

/-- The outcome of a call, beside the call. -/
structure Answered where
  call : Call
  outcome : Except Failure call.α

namespace FieldStore

variable {σ : Type} [ByteStore σ]

/-- Make calls one after the other, each from where the one before it ended, failed or not. -/
def make : List Call → FieldStore σ → List Answered
  | [], _ => []
  | call :: calls, f =>
    match perform call.operation.script f with
    | .ok a f => ⟨call, .ok a⟩ :: make calls f
    | .error e f => ⟨call, .error e⟩ :: make calls f

variable {α : Type} {view : StoreView σ} {f g : FieldStore σ} {c c' : Contents} {S T : Structure}
  {s : Script α}

/-- From contents that agree on the structure of a script, it has the same outcome. -/
theorem perform_own (h : f.Shows view c) (h' : g.Shows view c') (agree : Contents.AgreeOn S c c')
    (within : s.Within S) (takes : view.TakesAll (s.writes c)) :
    SameOutcome (fun f' g' : FieldStore σ => f'.Shows view (leftBy (s.run c)) ∧
        g'.Shows view (leftBy (s.run c'))) (perform s f) (perform s g) ∧
      Contents.AgreeOn S (leftBy (s.run c)) (leftBy (s.run c')) := by
  obtain ⟨same, writes⟩ := within.run_agrees agree
  obtain ⟨f', simulated⟩ := perform_simulates h takes
  obtain ⟨g', simulated'⟩ := perform_simulates h' (writes ▸ takes)
  refine ⟨?_, same.left⟩
  generalize s.run c = result at same simulated
  generalize s.run c' = result' at same simulated'
  cases same with
  | ok a _ =>
    rw [simulated.1, simulated'.1]
    exact .ok a ⟨simulated.2, simulated'.2⟩
  | error e _ =>
    rw [simulated.1, simulated'.1]
    exact .error e ⟨simulated.2, simulated'.2⟩

/-- What is answered to the calls on one structure is what is answered to them when they are all
that is called. -/
theorem only_make (h : f.Shows view c) (h' : g.Shows view c') (agree : Contents.AgreeOn S c c')
    {calls : List Call} (takes : view.TakesAll (Call.writes calls c)) :
    (make calls f).filter (fun a => a.call.target = S) = make (Call.only S calls) g := by
  -- Own calls move both field stores alike, and the others move only the one, and unseen.
  induction calls generalizing f g c c' with
  | nil => rfl
  | cons call calls ih =>
    have within := call.operation.within_script
    have here : view.TakesAll (call.operation.script.writes c) :=
      fun w hw => takes w (List.mem_append_left _ hw)
    have later : view.TakesAll (Call.writes calls (leftBy (call.operation.script.run c))) :=
      fun w hw => takes w (List.mem_append_right _ hw)
    by_cases own : call.target = S
    · obtain ⟨same, agree'⟩ := perform_own h h' agree (own ▸ within) here
      have rest : Call.only S (call :: calls) = call :: Call.only S calls :=
        List.filter_cons_of_pos (by simpa using own)
      rw [rest, make, make]
      generalize perform call.operation.script f = result at same
      generalize perform call.operation.script g = result' at same
      cases same with
      | ok a shows_after =>
        simp only [List.filter_cons, own, decide_true, if_true,
          ih shows_after.1 shows_after.2 agree' later]
      | error e shows_after =>
        simp only [List.filter_cons, own, decide_true, if_true,
          ih shows_after.1 shows_after.2 agree' later]
    · have after := perform_left h here
      have agree' : Contents.AgreeOn S (leftBy (call.operation.script.run c)) c' := by
        intro k hk
        rw [← within.run_other own c k hk, agree k hk]
      have rest : Call.only S (call :: calls) = Call.only S calls :=
        List.filter_cons_of_neg (by simpa using own)
      rw [rest, make]
      generalize perform call.operation.script f = result at after
      cases result with
      | ok a f' =>
        simp only [List.filter_cons, own, decide_false]
        exact ih after h' agree' later
      | error e f' =>
        simp only [List.filter_cons, own, decide_false]
        exact ih after h' agree' later

/-- Leaving out of a run all calls on other structures changes no answer to the calls on one
structure, whatever the store holds at first and as long as it takes every write. -/
theorem structures_are_isolated (h : f.Shows view c) (calls : List Call)
    (takes : view.TakesAll (Call.writes calls c)) (S : Structure) :
    (make calls f).filter (fun a => a.call.target = S) = make (Call.only S calls) f :=
  only_make h h (fun _ _ => rfl) takes

/-- A counter counts as if it were alone, among counters and a tree whose keys look like its own; and
flags whose names are joined to the same text are one structure. -/
theorem isolated_counter_and_flag :
    ∃ answers : List Answered,
      make [⟨.incrementCounter 1 (some "1")⟩, ⟨.setCounter 11 none 5⟩,
        ⟨.setFlag 1 "a" (some "b")⟩, ⟨.treeInsert ⟨1, [.lex], by simp⟩ ["1"] "x"⟩,
        ⟨.setCounter 1 (some "1,1") 7⟩, ⟨.incrementCounter 1 (some "1")⟩,
        ⟨.checkFlag 1 "a,b" none⟩] { store := Memory.empty } = answers ∧
      answers.filter (fun a => a.call.target = .counter 1 (some "1")) =
        [⟨⟨.incrementCounter 1 (some "1")⟩, .ok 1⟩, ⟨⟨.incrementCounter 1 (some "1")⟩, .ok 2⟩] ∧
      answers.filter (fun a => a.call.target = .flags 1 "a,b") =
        [⟨⟨.setFlag 1 "a" (some "b")⟩, .ok ()⟩, ⟨⟨.checkFlag 1 "a,b" none⟩, .ok true⟩] := by
  have start : Shows Memory.view { store := Memory.empty } (Memory.view.contents Memory.empty) :=
    ⟨trivial, rfl, fun _ _ h => nomatch h⟩
  refine ⟨_, rfl, ?_, ?_⟩
  · refine (structures_are_isolated start _ (fun _ _ => trivial) (.counter 1 (some "1"))).trans ?_
    cbv
  · refine (structures_are_isolated start _ (fun _ _ => trivial) (.flags 1 "a,b")).trans ?_
    cbv

end FieldStore

end FlatStore
