import Mathlib.Data.List.Forall2
import MiniScript.Proofs.Compiler.ForLoops
import MiniScript.Proofs.Heap.Names
import MiniScript.Proofs.Machine.Passage
import MiniScript.Proofs.Machine.Tenure

/-!
# Loops over items

A loop over items goes through what its subject had when the loop was set up. Until the
loop is left, its state is changed by nothing but the instruction that begins a turn: the
loops among its statements have numbers of their own, and functions that are called have
frames of their own. So the turns take the items one after the other, and the loop ends
when there is no item left.
-/

namespace MiniScript

open Compiler

theorem Instr.Straight.goesStraightOn {instr : Instr} {taken put : Nat}
    (moves : instr.Straight taken put) : instr.op.goesStraightOn = true := by
  cases moves with
  | unary op => cases op <;> rfl
  | _ => rfl

namespace Frame

variable {frame other : Frame} {loop : LoopState} {id : Nat}

theorem loop?_congr (same : other.loops = frame.loops) (id : Nat) :
    other.loop? id = frame.loop? id := by
  rw [loop?, loop?, same]

theorem Runs.congr {loops : List OpenLoop} (runs : frame.Runs loops)
    (same : other.loops = frame.loops) : other.Runs loops := by
  intro running member
  rw [loop?_congr same]
  exact runs running member

end Frame

/-- The numbers of the loops that are running, the innermost first. -/
def Slot.numbers (slot : Slot) : List Nat :=
  slot.loops.map (·.id)

namespace Machine

variable {σ : Type} {world : World σ} {machine : Machine} {position : Nat} {instr : Instr}
variable {action : Action}

/-- What an instruction makes of the loops of a frame, and of those in the layout. -/
inductive LoopChange (instr : Instr) (before after : Frame) (slot next : Slot) : Prop where
  | keeps (loops : after.loops = before.loops) (numbers : next.numbers = slot.numbers)
  | puts (loop : LoopState) (op : instr.op = .createForLoop ∨ instr.op = .iterateForLoop)
      (operand : instr.first = .int loop.id) (loops : after.loops = (before.putLoop loop).loops)
      (numbers : next.numbers = slot.numbers ∨ next.numbers = loop.id :: slot.numbers)
  | drops (id : Nat) (op : instr.op = .iterateForLoop ∨ instr = withCount .breakForLoop id)
      (operand : instr.first = .int id) (loops : after.loops = (before.dropLoop id).loops)
      (numbers : slot.numbers = id :: next.numbers) (apart : id ∉ next.numbers)

/-- The instruction leads to one of the next places, in the same frame, or leaves the frame. -/
inductive Follows (next : Places) (machine : Machine) (instr : Instr) (slot : Slot)
    (action : Action) : Prop where
  | goesOn (after : Slot) (callers : action.next.callers = machine.callers)
      (reached : next action.next.frame.position after)
      (runs : action.next.frame.Runs after.loops)
      (change : LoopChange instr machine.frame action.next.frame slot after)
  | leaves (isReturn : instr.op = .return)
      (back : machine.callers = action.next.frame :: action.next.callers)

theorem planTurn_of_none {stop : Nat} {loop : LoopState}
    (item : loop.items[loop.index]? = none) : planTurn world machine position stop loop =
      .proceed
        { machine with frame := { machine.frame.dropLoop loop.id with position := stop } } := by
  simp only [planTurn, item]

theorem planTurn_of_some {stop : Nat} {loop : LoopState} {item : Value}
    (found : loop.items[loop.index]? = some item) : planTurn world machine position stop loop =
      .store
        { machine with
          frame := machine.frame.putLoop
            { loop with start := position, exit := stop, index := loop.index + 1 } }
        (world.heap.vars machine.frame.scope) (.text loop.var)
        (loopValue world.heap loop.source item) := by
  simp only [planTurn, found]

/-- There is an operand for an instruction that has taken one. -/
theorem exists_operand
    (takes : (∃ target, instr = jumpTo .jumpIfFalse target ∨ instr = jumpTo .jumpIfTrue target) ∨
      instr = { op := .return } ∨
      ∃ id var, instr = { op := .createForLoop, first := .int id, second := .name var })
    (planned : plan world machine position instr = .ok action) :
    ∃ value stack, machine.stack = value :: stack := by
  cases held : machine.stack with
  | cons value stack => exact ⟨value, stack, rfl⟩
  | nil =>
      obtain ⟨frame, callers, _, status, yields, native⟩ := machine
      subst held
      rcases takes with ⟨target, rfl | rfl⟩ | rfl | ⟨id, var, rfl⟩
      · cases planned
      · cases planned
      · cases planned
      · unfold plan at planned
        dsimp only at planned
        cases number : loopOperand world.heap .createForLoop (.int id) with
        | error error =>
            rw [number] at planned
            cases planned
        | ok found =>
            rw [number] at planned
            cases planned

/-- What an accepted instruction has planned. -/
theorem plan_follows {next : Places} {slot : Slot}
    (accepts : Accepts machine.callers.isEmpty next position instr slot)
    (behind : machine.frame.position = position + 1) (runs : machine.frame.Runs slot.loops)
    (planned : plan world machine position instr = .ok action) :
    Follows next machine instr slot action := by
  -- Nothing is asked of the number of operands: what has been planned has found its own.
  generalize outermost : machine.callers.isEmpty = isOutermost at accepts
  induction accepts with
  | @straight _ taken left rest loops moves onward =>
      have same := plan_sameFrames world machine position moves.goesStraightOn action planned
      refine .goesOn ⟨rest + left, loops⟩ same.callers ?_ ?_ (.keeps ?_ rfl)
      · rw [same.frame, behind]
        exact onward
      · rw [same.frame]
        exact runs
      · rw [same.frame]
  | jump onward =>
      cases planned
      exact .goesOn _ rfl onward runs (.keeps rfl rfl)
  | branch height branches onward away =>
      obtain ⟨value, stack, held⟩ := exists_operand
        (Or.inl ⟨_, branches.imp (congrArg (jumpTo · _)) (congrArg (jumpTo · _))⟩) planned
      rcases plan_branch branches held with same | same
      · cases planned.symm.trans same
        rw [← behind] at onward
        exact .goesOn _ rfl onward runs (.keeps rfl rfl)
      · cases planned.symm.trans same
        exact .goesOn _ rfl away runs (.keeps rfl rfl)
  | leave inner =>
      obtain ⟨value, stack, held⟩ := exists_operand (Or.inr (Or.inl rfl)) planned
      cases planned.symm.trans (plan_return held)
      cases callers : machine.callers with
      | nil => cases (congrArg List.isEmpty callers).symm.trans (outermost.trans inner)
      | cons caller rest =>
          refine .leaves rfl ?_
          simp only [Action.next, Machine.leave, callers]
  | drop outer onward =>
      obtain ⟨value, stack, held⟩ := exists_operand (Or.inr (Or.inl rfl)) planned
      have stays : { machine with stack }.leave value = { machine with stack } := by
        rw [Machine.leave, List.isEmpty_iff.mp (outermost.trans outer)]
      cases planned.symm.trans (plan_return held)
      rw [stays]
      rw [← behind] at onward
      exact .goesOn _ rfl onward runs (.keeps rfl rfl)
  | create height small fresh onward =>
      obtain ⟨value, stack, held⟩ := exists_operand (Or.inr (Or.inr ⟨_, _, rfl⟩)) planned
      rw [plan_create _ small held] at planned
      cases known : orFault (loopItems world.heap value) with
      | error error =>
          rw [known] at planned
          cases planned
      | ok visited =>
          rw [known] at planned
          cases planned
          rw [← behind] at onward
          refine .goesOn _ rfl onward (runs.putLoop _ fresh ?_)
            (.puts _ (Or.inl rfl) rfl rfl (Or.inr rfl))
          rintro _ _ ⟨⟩
  | @iterate _ stop height bounds loops small apart onward away =>
      obtain ⟨loop, found, _⟩ := runs _ (List.mem_cons_self ..)
      have same := Frame.loop?_id found
      subst same
      have turn := planned.symm.trans (plan_iterate small found)
      cases item : loop.items[loop.index]? with
      | none =>
          cases turn.trans (congrArg Except.ok (planTurn_of_none item))
          exact .goesOn _ rfl away (runs.tail.dropLoop apart)
            (.drops loop.id (Or.inl rfl) rfl rfl rfl apart)
      | some value =>
          let turned := { loop with start := position, exit := stop, index := loop.index + 1 }
          cases turn.trans (congrArg Except.ok (planTurn_of_some item))
          rw [← behind] at onward
          refine .goesOn _ rfl onward ?_ (.puts turned (Or.inr rfl) rfl rfl (Or.inl rfl))
          refine runs.tail.putLoop turned apart ?_
          rintro _ _ ⟨⟩
          exact ⟨rfl, rfl⟩
  | exit small apart away =>
      obtain ⟨loop, found, bounds⟩ := runs _ (List.mem_cons_self ..)
      cases planned.symm.trans (plan_break small found)
      rw [← (bounds _ _ rfl).2] at away
      exact .goesOn _ rfl away (runs.tail.dropLoop apart) (.drops _ (Or.inr rfl) rfl rfl rfl apart)
  | again small away =>
      obtain ⟨loop, found, bounds⟩ := runs _ (List.mem_cons_self ..)
      cases planned.symm.trans (plan_continue small found)
      rw [← (bounds _ _ rfl).1] at away
      exact .goesOn _ rfl away runs.forget (.keeps rfl rfl)
  | forget less ih =>
      cases ih runs.forget planned with
      | goesOn after callers reached runs change =>
          refine .goesOn after callers reached runs ?_
          cases change with
          | keeps loops numbers => exact .keeps loops numbers
          | puts loop op operand loops numbers => exact .puts loop op operand loops numbers
          | drops id op operand loops numbers apart =>
              exact .drops id op operand loops numbers apart
      | leaves isReturn back => exact .leaves isReturn back

end Machine

variable {σ : Type} {host : Host σ}

/-- The value for an item, and the heap then: the item itself or, when the items are the keys of a
map, a new record of the key and of what the map has under it, null if nothing. -/
inductive Heap.Offers (heap : Heap) (item : Value) : Option MapRef → Value → Heap → Prop where
  | item : Offers heap item none item heap
  | record (map : MapRef) (object : MapObject)
      (entries : object.entries.map (fun entry => (entry.key, entry.value)) =
        [(.text "key", item), (.text "value", (heap.get? map item).getD .null)]) :
      Offers heap item (some map) (.map ⟨heap.maps.size⟩)
        { heap with maps := heap.maps.push object }

theorem Heap.offers_loopValue (heap : Heap) (source : Option MapRef) (item : Value) :
    heap.Offers item source ((Machine.loopValue heap source item).valueIn heap)
      ((Machine.loopValue heap source item).addTo heap) := by
  cases source with
  | none => exact .item
  | some map => exact .record map _ rfl

/-- The map with the variables of the code that is running. -/
def Visit.vars (visit : Visit σ) : MapRef :=
  visit.world.heap.vars visit.machine.frame.scope

/-- The instruction of the visit stores in the variable what there is for the item. -/
def Visit.Binds (host : Host σ) (var : String) (source : Option MapRef) (visit : Visit σ)
    (item : Value) : Prop :=
  ∃ instr next after value heap, visit.machine.Executes host visit.world instr next after ∧
    visit.world.heap.Offers item source value heap ∧
    { visit.world.pass 1000 with heap }.store host visit.vars (.text var) value =
      (.ok (), after) ∧
    (visit.vars.index < after.heap.maps.size →
      after.heap.getNamed? visit.vars var = some value)

/-- After a store under a name the map has the value there. -/
theorem World.getNamed?_of_store {world after : World σ} {map : MapRef} {name : String}
    {value : Value} (stored : world.store host map (.text name) value = (.ok (), after))
    (inside : map.index < after.heap.maps.size) :
    after.heap.getNamed? map name = some value := by
  have inserted (world : World σ)
      (inside : map.index <
        (world.modifyHeap fun heap => heap.insert map (.text name) value).heap.maps.size) :
      (world.modifyHeap fun heap => heap.insert map (.text name) value).heap.getNamed? map name =
        some value := by
    refine Heap.getNamed?_insertNamed ?_ name value
    rwa [← Array.size_modify]
  unfold World.store at stored
  split at stored
  · cases stored
    exact inserted world inside
  · split at stored
    · cases stored
      exact inserted _ inside
    · cases stored

/-- An instruction that begins a turn binds the variable of the loop. -/
theorem Machine.Executes.binds {machine next : Machine} {world after : World σ} {instr : Instr}
    {place stop : Nat} {loop : LoopState} {item : Value}
    (executes : machine.Executes host world instr next after)
    (planned : plan (world.pass 1000) machine.begun machine.position instr =
      .ok (planTurn (world.pass 1000) machine.begun place stop loop))
    (found : loop.items[loop.index]? = some item) :
    Visit.Binds host loop.var loop.source ⟨machine, world⟩ item := by
  obtain ⟨action, other, performed⟩ := execute_eq_ok executes.executed
  rw [planTurn_of_some found] at planned
  cases planned.symm.trans other
  unfold perform at performed
  dsimp only at performed
  split at performed
  · rename_i stored
    cases performed
    exact ⟨instr, _, _, _, _, executes, world.heap.offers_loopValue loop.source item, stored,
      World.getNamed?_of_store stored⟩
  · cases performed

/-- The frame has begun `count` turns of a loop over the items and is still in it. -/
structure Frame.Turning (loop : ForLoop) (id : Nat) (items : Array Value) (source : Option MapRef)
    (count : Nat) (frame : Frame) : Prop where
  after : loop.next ≤ frame.position
  before : frame.position < loop.stop
  within : count ≤ items.size
  state : ∃ start exit, frame.loop? id =
      some { id, var := loop.var, items, source, index := count, start, exit } ∧
    (frame.position = loop.next ∨ exit = loop.stop)

/-- What an instruction makes of a frame that has begun `count` turns of a loop over the items: it
begins the next turn, or the loop is left because there is no item left, or it is one of the
statements, or leaves the loop. -/
inductive Visit.Turns (host : Host σ) (loop : ForLoop) (id : Nat) (items : Array Value)
    (source : Option MapRef) (count : Nat) (visit : Visit σ) (frame : Frame) : Prop where
  | begins {item : Value} (here : visit.position = loop.next) (next : items[count]? = some item)
      (binds : visit.Binds host loop.var source item)
      (goesOn : frame.Turning loop id items source (count + 1))
  | finishes (here : visit.position = loop.next) (all : count = items.size)
      (place : frame.position = loop.stop) (gone : frame.loop? id = none)
  | inside (away : visit.position ≠ loop.next) (goesOn : frame.Turning loop id items source count)
  | breaks (away : visit.position ≠ loop.next)
      (found : visit.machine.frame.code.instrs[visit.position]? =
        some (withCount .breakForLoop id))
      (place : frame.position = loop.stop) (gone : frame.loop? id = none)

/-- The turns of a loop stand in the code, with a layout of their own. -/
structure LoopLayout (outermost : Bool) (code : Code) (loop : ForLoop) (id : Nat)
    (part : List Instr) (places : Places) : Prop extends LoopCode loop id part where
  has : code.Has loop.next (loop.turns id part)
  start : places loop.next (.level [⟨id, none⟩])
  accepted : ∀ place slot, places place slot → ∃ offset instr, place = loop.next + offset ∧
    (loop.turns id part)[offset]? = some instr ∧
      Accepts outermost
        (fun place slot => places place slot ∨ place = loop.stop ∧ slot = .level []) place instr
        slot

/-- The frame is at a place of the layout, and the loop is the outermost one there. -/
def Frame.Placed (id : Nat) (places : Places) (frame : Frame) : Prop :=
  ∃ slot, places frame.position slot ∧ frame.Runs slot.loops ∧ slot.numbers.getLast? = some id

theorem Compiler.ForLoop.stop_eq {loop : ForLoop} {id : Nat} {part : List Instr}
    (length : part.length = stmtsSize loop.body) :
    loop.stop = loop.next + (loop.turns id part).length := by
  simp only [stop, turns, List.length_cons, List.length_append, List.length_nil]
  omega

namespace LoopLayout

variable {outer : List Frame} {code : Code} {loop : ForLoop} {id count : Nat} {part : List Instr}
variable {places : Places} {items : Array Value} {source : Option MapRef} {visit : Visit σ}
variable {instr : Instr} {action : Action}

theorem range {outermost : Bool} (layout : LoopLayout outermost code loop id part places)
    {place : Nat} {slot : Slot} (known : places place slot) :
    loop.next ≤ place ∧ place < loop.stop := by
  obtain ⟨offset, instr, rfl, found, _⟩ := layout.accepted place slot known
  obtain ⟨within, _⟩ := List.getElem?_eq_some_iff.mp found
  rw [Compiler.ForLoop.stop_eq layout.length]
  exact ⟨Nat.le_add_right _ _, Nat.add_lt_add_left within _⟩

/-- An instruction of a frame in the layout is accepted there. -/
theorem accepts {outermost : Bool} (layout : LoopLayout outermost code loop id part places)
    {machine next : Machine} {world after : World σ}
    (executes : machine.Executes host world instr next after) (same : machine.frame.code = code)
    (placed : machine.frame.Placed id places) :
    ∃ offset slot, machine.position = loop.next + offset ∧
      (loop.turns id part)[offset]? = some instr ∧ slot.numbers.getLast? = some id ∧
      machine.frame.Runs slot.loops ∧
      Accepts outermost
        (fun place slot => places place slot ∨ place = loop.stop ∧ slot = .level [])
        machine.position instr slot := by
  obtain ⟨slot, known, runs, last⟩ := placed
  obtain ⟨offset, other, place, found, accepts⟩ := layout.accepted _ _ known
  obtain ⟨within, _⟩ := List.getElem?_eq_some_iff.mp found
  have here := executes.found
  rw [same, show machine.position = loop.next + offset from place, layout.has offset within,
    found] at here
  cases here
  exact ⟨offset, slot, place, found, last, runs, accepts⟩

/-- What becomes of the loops of a frame in the layout. -/
theorem follows (layout : LoopLayout outer.isEmpty code loop id part places)
    (hands : visit.HandsOn host outer instr action) (same : visit.machine.frame.code = code)
    (placed : visit.machine.frame.Placed id places) :
    ∃ offset slot after, visit.position = loop.next + offset ∧
      (loop.turns id part)[offset]? = some instr ∧ slot.numbers.getLast? = some id ∧
      (places action.next.frame.position after ∨
        action.next.frame.position = loop.stop ∧ after = .level []) ∧
      action.next.frame.Runs after.loops ∧
      Machine.LoopChange instr visit.machine.begun.frame action.next.frame slot after := by
  obtain ⟨next, later, executes⟩ := hands.executes
  obtain ⟨offset, slot, place, found, last, runs, accepts⟩ := layout.accepts executes same placed
  have top : visit.machine.begun.callers = outer := hands.callers
  rw [← top] at accepts
  cases Machine.plan_follows accepts rfl (runs.congr rfl) hands.planned with
  | goesOn after callers reached runs change =>
      exact ⟨offset, slot, after, place, found, last, reached, runs, change⟩
  | leaves isReturn back =>
      rw [top, ← hands.kept] at back
      exact absurd back.symm (List.cons_ne_self _ _)

/-- Only a `return` leaves a frame in the layout. -/
theorem isReturn (layout : LoopLayout outer.isEmpty code loop id part places)
    {machine next : Machine} {world after : World σ}
    (executes : machine.Executes host world instr next after) (same : machine.frame.code = code)
    (placed : machine.frame.Placed id places) (callers : machine.callers = outer)
    (planned : Machine.plan (world.pass 1000) machine.begun machine.position instr = .ok action)
    (left : outer = action.next.frame :: action.next.callers) : instr.op = .return := by
  obtain ⟨offset, slot, _, _, _, runs, accepts⟩ := layout.accepts executes same placed
  have top : machine.begun.callers = outer := callers
  rw [← top] at accepts
  cases Machine.plan_follows accepts rfl (runs.congr rfl) planned with
  | goesOn after kept =>
      rw [kept, top] at left
      exact absurd left.symm (List.cons_ne_self _ _)
  | leaves isReturn => exact isReturn

variable {frame : Frame} {slot after : Slot}

theorem getLast?_numbers {other : Nat}
    (numbers : after.numbers = slot.numbers ∨ after.numbers = other :: slot.numbers)
    (last : slot.numbers.getLast? = some id) : after.numbers.getLast? = some id := by
  rcases numbers with same | more
  · rwa [same]
  · rw [more, List.getLast?_cons, last]
    rfl

/-- As long as the loop is the outermost one, the frame is in the turns. -/
theorem stays {outermost : Bool} (layout : LoopLayout outermost code loop id part places)
    (reached : places frame.position after ∨ frame.position = loop.stop ∧ after = .level [])
    (runs : frame.Runs after.loops) (last : after.numbers.getLast? = some id) :
    frame.Placed id places ∧ loop.next ≤ frame.position ∧ frame.position < loop.stop := by
  rcases reached with known | ⟨_, rfl⟩
  · exact ⟨⟨after, known, runs, last⟩, layout.range known⟩
  · cases last

/-- What the instruction that begins a turn plans. -/
theorem plan_turn {outermost : Bool} (layout : LoopLayout outermost code loop id part places)
    (world : World σ) {machine : Machine} {state : LoopState}
    (found : machine.frame.loop? id = some state) :
    Machine.plan (world.pass 1000) machine.begun machine.position (loop.turn id) =
      .ok (Machine.planTurn (world.pass 1000) machine.begun machine.position loop.stop state) :=
  Machine.plan_iterate layout.small found

/-- The instruction that begins a turn takes the next item, or leaves the loop if there is none. -/
theorem atNext (layout : LoopLayout outer.isEmpty code loop id part places)
    (hands : visit.HandsOn host outer instr action) (same : visit.machine.frame.code = code)
    (turning : visit.machine.frame.Turning loop id items source count)
    (placed : visit.machine.frame.Placed id places) (here : visit.position = loop.next) :
    visit.Turns host loop id items source count action.next.frame ∧
      (action.next.frame.position ≠ loop.stop → action.next.frame.Placed id places) := by
  obtain ⟨offset, slot, after, place, found, last, reached, runs, change⟩ :=
    layout.follows hands same placed
  have first : offset = 0 := by omega
  subst first
  cases found
  obtain ⟨start, exit, state, -⟩ := turning.state
  obtain ⟨machine, later, executes⟩ := hands.executes
  have planned := layout.plan_turn visit.world state
  have turn := hands.planned.symm.trans planned
  cases next : items[count]? with
  | none =>
      cases turn.trans (congrArg Except.ok (Machine.planTurn_of_none next))
      have all : count = items.size :=
        Nat.le_antisymm turning.within (Array.getElem?_eq_none_iff.mp next)
      exact ⟨.finishes here all rfl (Frame.loop?_dropLoop _ _), fun moved => absurd rfl moved⟩
  | some item =>
      have binds := executes.binds planned next
      cases turn.trans (congrArg Except.ok (Machine.planTurn_of_some next))
      have now := Frame.loop?_putLoop visit.machine.begun.frame
        { id, var := loop.var, items, source, index := count + 1,
          start := visit.position, exit := loop.stop }
      have last : after.numbers.getLast? = some id := by
        cases change with
        | keeps loops numbers => exact (congrArg List.getLast? numbers).trans last
        | puts other op operand loops numbers => exact getLast?_numbers numbers last
        | drops other op operand loops numbers apart =>
            cases operand
            have gone := (Frame.loop?_congr loops id).trans (Frame.loop?_dropLoop _ id)
            cases gone.symm.trans now
      obtain ⟨placed, above, below⟩ := layout.stays reached runs last
      obtain ⟨within, _⟩ := Array.getElem?_eq_some_iff.mp next
      exact ⟨.begins here next binds ⟨above, below, within, _, _, now, Or.inr rfl⟩, fun _ => placed⟩

/-- The statements leave the state of the loop alone, and the frame in the loop unless they leave
it. -/
theorem inBody (layout : LoopLayout outer.isEmpty code loop id part places)
    (hands : visit.HandsOn host outer instr action) (same : visit.machine.frame.code = code)
    (turning : visit.machine.frame.Turning loop id items source count)
    (placed : visit.machine.frame.Placed id places) (away : visit.position ≠ loop.next) :
    visit.Turns host loop id items source count action.next.frame ∧
      (action.next.frame.position ≠ loop.stop → action.next.frame.Placed id places) := by
  obtain ⟨offset, slot, after, place, found, last, reached, runs, change⟩ :=
    layout.follows hands same placed
  -- The loops among the statements have larger numbers, so only a `break` can end this one.
  have numbered : instr.IsQuiet ∨ ∃ other : Nat, instr.first = .int other ∧ id + 1 ≤ other := by
    cases offset with
    | zero => exact absurd place away
    | succ offset =>
        rcases List.mem_append.mp (List.mem_of_getElem? (show _ = some instr from found)) with
          inside | jump
        · exact layout.numbers instr inside
        · cases List.mem_singleton.mp jump
          exact Or.inl (.of rfl)
  obtain ⟨start, exit, state, known⟩ := turning.state
  have known := known.resolve_left away
  have inside (kept : action.next.frame.loop? id = visit.machine.frame.loop? id)
      (last : after.numbers.getLast? = some id) :
      visit.Turns host loop id items source count action.next.frame ∧
        (action.next.frame.position ≠ loop.stop → action.next.frame.Placed id places) := by
    obtain ⟨placed, above, below⟩ := layout.stays reached runs last
    exact ⟨.inside away
      ⟨above, below, turning.within, start, exit, kept.trans state, Or.inr known⟩, fun _ => placed⟩
  cases change with
  | keeps loops numbers =>
      exact inside (Frame.loop?_congr loops id) ((congrArg List.getLast? numbers).trans last)
  | puts other op operand loops numbers =>
      have apart : id ≠ other.id := by
        rcases numbered with quiet | ⟨number, same, above⟩
        · exact absurd op (not_or.mpr quiet)
        · cases operand.symm.trans same
          omega
      exact inside ((Frame.loop?_congr loops id).trans (Frame.loop?_putLoop_of_ne apart))
        (getLast?_numbers numbers last)
  | drops other op operand loops numbers apart =>
      cases rest : after.numbers with
      | nil =>
          rw [numbers, rest] at last
          have own : other = id := Option.some.inj last
          subst own
          rcases op with iterates | rfl
          · rcases numbered with quiet | ⟨number, same, above⟩
            · exact absurd iterates quiet.2
            · cases operand.symm.trans same
              omega
          · cases hands.planned.symm.trans (Machine.plan_break layout.small state)
            obtain ⟨machine, later, executes⟩ := hands.executes
            exact ⟨.breaks away executes.found known (Frame.loop?_dropLoop _ _),
              fun moved => absurd known moved⟩
      | cons inner more =>
          have last : after.numbers.getLast? = some id := by
            rwa [numbers, rest, List.getLast?_cons_cons, ← rest] at last
          have differs : id ≠ other := by
            rintro rfl
            exact apart (List.mem_of_getLast? last)
          exact inside ((Frame.loop?_congr loops id).trans (Frame.loop?_dropLoop_of_ne differs))
            last

/-- An instruction of a frame that is in the turns of a loop. -/
theorem step (layout : LoopLayout outer.isEmpty code loop id part places)
    (hands : visit.HandsOn host outer instr action) (same : visit.machine.frame.code = code)
    (turning : visit.machine.frame.Turning loop id items source count)
    (placed : visit.machine.frame.Placed id places) :
    visit.Turns host loop id items source count action.next.frame ∧
      (action.next.frame.position ≠ loop.stop → action.next.frame.Placed id places) := by
  by_cases here : visit.position = loop.next
  · exact layout.atNext hands same turning placed here
  · exact layout.inBody hands same turning placed here

/-- Where no item is left, the instruction that would begin a turn does not fail. -/
theorem ends {outermost : Bool} (layout : LoopLayout outermost code loop id part places)
    {machine : Machine} (world : World σ) (running : machine.status = .running)
    (awake : machine.wait? = none) (same : machine.frame.code = code)
    (turning : machine.frame.Turning loop id items source items.size)
    (here : machine.position = loop.next) :
    ∃ next after, machine.Executes host world (loop.turn id) next after := by
  obtain ⟨start, exit, state, -⟩ := turning.state
  have found : machine.frame.code.instrs[machine.position]? = some (loop.turn id) := by
    rw [same, here]
    exact layout.has.head
  have none : items[items.size]? = none := Array.getElem?_eq_none (Nat.le_refl _)
  let left : Frame := { machine.begun.frame.dropLoop id with position := loop.stop }
  refine ⟨{ machine.begun with frame := left }, world.pass 1000, running, awake, found, ?_⟩
  rw [Machine.execute_eq, layout.plan_turn world state, Machine.planTurn_of_none none]
  rfl

/-- The instruction that sets the loop up takes what the subject has, and no turn has begun. -/
theorem created (layout : LoopLayout outer.isEmpty code loop id part places)
    (hands : visit.HandsOn host outer (loop.setUp id) action)
    (creates : visit.position = loop.create) :
    ∃ items source subject below, visit.machine.stack = subject :: below ∧
      Machine.loopItems visit.world.heap subject = .ok (items, source) ∧
      action.next.frame.Turning loop id items source 0 ∧ action.next.frame.Placed id places := by
  obtain ⟨subject, below, held⟩ :=
    Machine.exists_operand (Or.inr (Or.inr ⟨id, loop.var, rfl⟩)) hands.planned
  have planned := hands.planned.symm.trans (Machine.plan_create loop.var layout.small held)
  cases visited : Machine.loopItems visit.world.heap subject with
  | error fault =>
      rw [show (visit.world.pass 1000).heap = visit.world.heap from rfl, visited] at planned
      cases planned
  | ok found =>
      obtain ⟨items, source⟩ := found
      rw [show (visit.world.pass 1000).heap = visit.world.heap from rfl, visited] at planned
      cases planned
      have now := Frame.loop?_putLoop visit.machine.begun.frame
        { id, var := loop.var, items, source }
      have place : visit.machine.begun.frame.position = loop.next := congrArg (· + 1) creates
      obtain ⟨above, below'⟩ := layout.range layout.start
      refine ⟨items, source, subject, below, held, visited, ?_, .level [⟨id, none⟩], ?_, ?_, rfl⟩
      · exact ⟨Nat.le_of_eq place.symm, place ▸ below', Nat.zero_le _, 0, 0, now, Or.inl place⟩
      · exact place ▸ layout.start
      · refine List.forall_mem_singleton.mpr ⟨_, now, ?_⟩
        rintro _ _ ⟨⟩

end LoopLayout

/-- The visits in which turns of the loop have begun, in their order. -/
def Compiler.ForLoop.turned (loop : ForLoop) (visits : List (Visit σ)) : List (Visit σ) :=
  (visits.filter fun visit => visit.position = loop.next).reverse

namespace Compiler.ForLoop

variable {loop : ForLoop} {visit : Visit σ} {visits : List (Visit σ)}

theorem turned_cons_of_next (here : visit.position = loop.next) :
    loop.turned (visit :: visits) = loop.turned visits ++ [visit] := by
  simp only [turned, List.filter_cons, here, decide_true, if_true, List.reverse_cons]

theorem turned_cons_of_ne (away : visit.position ≠ loop.next) :
    loop.turned (visit :: visits) = loop.turned visits := by
  simp only [turned, List.filter_cons, away, decide_false, Bool.false_eq_true, if_false]

end Compiler.ForLoop

section

variable {outer : List Frame} {first frame : Frame} {visit : Visit σ}
variable {visits later earlier : List (Visit σ)} {instr : Instr} {action : Action}

/-- The line up to a visit, and the line from there on. -/
theorem Line.split (line : Line host outer first (later ++ visit :: earlier) frame) :
    ∃ instr action, Line host outer first earlier visit.machine.frame ∧
      visit.HandsOn host outer instr action ∧ Line host outer action.next.frame later frame := by
  generalize all : later ++ visit :: earlier = visits at line
  induction line generalizing later with
  | start => cases (List.append_eq_nil_iff.mp all).2
  | goesOn before hands ih =>
      cases later with
      | nil =>
          cases all
          exact ⟨_, _, before, hands, .start⟩
      | cons last later =>
          obtain ⟨rfl, rest⟩ := List.cons.inj all
          obtain ⟨instr, action, early, here, late⟩ := ih rest
          exact ⟨instr, action, early, here, late.goesOn hands⟩

/-- As long as the frame has not come to the end of the loop, each turn that has begun has bound
the variable to the next item. -/
theorem LoopLayout.line {code : Code} {loop : ForLoop} {id : Nat} {part : List Instr}
    {places : Places} {items : Array Value} {source : Option MapRef}
    (layout : LoopLayout outer.isEmpty code loop id part places)
    (line : Line host outer first visits frame) (same : first.code = code)
    (turning : first.Turning loop id items source 0) (placed : first.Placed id places)
    (running : ∀ visit ∈ visits, visit.position ≠ loop.stop) (there : frame.position ≠ loop.stop) :
    List.Forall₂ (Visit.Binds host loop.var source) (loop.turned visits)
        (items.toList.take (loop.turned visits).length) ∧
      frame.Turning loop id items source (loop.turned visits).length ∧ frame.Placed id places := by
  -- The instructions carried out so far; what goes along is the number of the turns among them.
  induction line with
  | start => exact ⟨.nil, turning, placed⟩
  | @goesOn visits visit instr action before hands ih =>
      obtain ⟨here, running⟩ := List.forall_mem_cons.mp running
      obtain ⟨bound, turning, placed⟩ := ih running here
      obtain ⟨turns, placed⟩ := layout.step hands (before.code.trans same) turning placed
      have placed := placed there
      cases turns with
      | begins here next binds goesOn =>
          rw [Compiler.ForLoop.turned_cons_of_next here, List.length_append, List.length_singleton]
          refine ⟨?_, goesOn, placed⟩
          rw [List.take_add_one, Array.getElem?_toList, next]
          exact List.rel_append bound (.cons binds .nil)
      | inside away goesOn =>
          rw [Compiler.ForLoop.turned_cons_of_ne away]
          exact ⟨bound, goesOn, placed⟩
      | finishes here all place gone => exact absurd place there
      | breaks away found place gone => exact absurd place there

/-- The loop stands in the code. -/
theorem Compiler.ForLoop.Inside.layout {loop : ForLoop} {code : Code}
    (inside : loop.Inside 0 code.instrs.toList) (outermost : Bool) :
    ∃ id part places, code.instrs[loop.create]? = some (loop.setUp id) ∧
      LoopLayout outermost code loop id part places := by
  obtain ⟨id, part, before, after, written, split, place⟩ := inside
  have has : code.Has loop.create (loop.setUp id :: loop.turns id part) := by
    rw [place, Nat.zero_add]
    exact .ofSplit split
  obtain ⟨places, start, accepted⟩ := written.segment outermost
  have started := start.resolve_right fun empty => List.cons_ne_nil _ _ empty.1
  refine ⟨id, part, places, has.head, written, has.tail, started, ?_⟩
  intro place slot known
  obtain ⟨offset, instr, same, found, accepts⟩ := accepted place slot known
  refine ⟨offset, instr, same, found, accepts.mono fun other reached => ?_⟩
  rintro (inside | outside | ⟨rfl, ends⟩)
  · exact Or.inl inside
  · exact outside.elim
  · exact Or.inr ⟨(stop_eq written.length).symm, (Option.some.inj ends).symm⟩

end

namespace Machine

variable {outer : List Frame} {machine first : Machine} {world initial : World σ}

/-- The frame above `outer` carries out an instruction: it is handed on, and may be below a function
then, or it is left. -/
theorem Executes.handsOn {next : Machine} {after : World σ} {instr : Instr}
    (executes : machine.Executes host world instr next after) (callers : machine.callers = outer) :
    ∃ action, plan (world.pass 1000) machine.begun machine.position instr = .ok action ∧
      (Visit.HandsOn host outer ⟨machine, world⟩ instr action ∧
          action.next.frame :: outer <:+ next.frame :: next.callers ∨
        outer = action.next.frame :: action.next.callers ∧
          outer = next.frame :: next.callers) := by
  obtain ⟨action, planned, performed, fares⟩ := executes.fares
  have hands (kept : action.next.callers = machine.callers) :
      Visit.HandsOn host outer ⟨machine, world⟩ instr action :=
    ⟨⟨next, after, executes⟩, planned, callers, kept.trans callers⟩
  refine ⟨action, planned, ?_⟩
  cases fares with
  | goesOn running frame same kept =>
      rw [frame, same, callers]
      exact Or.inl ⟨hands kept, List.suffix_refl _⟩
  | waits waiting frame same kept =>
      rw [frame, same, callers]
      exact Or.inl ⟨hands kept, List.suffix_refl _⟩
  | enters running called kept =>
      rw [called, callers]
      exact Or.inl ⟨hands kept, List.suffix_cons _ _⟩
  | returns running left back => exact Or.inr ⟨callers.symm.trans left, callers.symm.trans back⟩

/-- A frame in a loop carries out an instruction: it keeps the loop, or leaves it, or returns. -/
theorem Executes.inLoop {code : Code} {loop : ForLoop} {id turns : Nat} {part : List Instr}
    {places : Places} {items : Array Value} {source : Option MapRef}
    (executes : machine.Executes host world instr next after)
    (layout : LoopLayout outer.isEmpty code loop id part places) (callers : machine.callers = outer)
    (same : machine.frame.code = code) (turning : machine.frame.Turning loop id items source turns)
    (placed : machine.frame.Placed id places) :
    instr.op = .return ∧ outer = next.frame :: next.callers ∨
      ∃ frame, frame :: outer <:+ next.frame :: next.callers ∧
        Visit.Turns host loop id items source turns ⟨machine, world⟩ frame := by
  obtain ⟨action, planned, ⟨hands, above⟩ | ⟨left, back⟩⟩ := executes.handsOn callers
  · exact Or.inr ⟨action.next.frame, above, (layout.step hands same turning placed).1⟩
  · exact Or.inl ⟨layout.isReturn executes same placed callers planned left, back⟩

/-- Where a frame is in a loop that it has set up in the visit `creation` and has not left. -/
theorem Tenure.inLoop {sourceName : Option String} {kind : BodyKind} {stmts : List Stmt}
    {functions result : Array Definition} {code : Code} {loop : ForLoop}
    {later earlier : List (Visit σ)} {creation : Visit σ} (few : FewLoops stmts)
    (compiled : compileBody sourceName kind stmts functions = .ok (code, result))
    (member : loop ∈ stmtsForLoops 0 stmts) (same : first.frame.code = code)
    (active : first.Active) (callers : first.callers = outer)
    (begins : first.Stands outer)
    (tenure : Tenure host outer first initial (later ++ creation :: earlier) machine world)
    (creates : creation.position = loop.create)
    (running : ∀ visit ∈ later, visit.position ≠ loop.stop) (there : machine.position ≠ loop.stop)
    (acts : machine.Acts outer) :
    ∃ id part places items source subject below,
      LoopLayout outer.isEmpty code loop id part places ∧
      creation.machine.stack = subject :: below ∧
      loopItems creation.world.heap subject = .ok (items, source) ∧
      List.Forall₂ (Visit.Binds host loop.var source) (loop.turned later)
        (items.toList.take (loop.turned later).length) ∧
      machine.frame.Turning loop id items source (loop.turned later).length ∧
      machine.frame.Placed id places ∧ machine.frame.code = code ∧ machine.callers = outer := by
  obtain ⟨id, part, places, setUp, layout⟩ :=
    (compileBody_loops few compiled loop member).layout outer.isEmpty
  obtain ⟨top, line⟩ := tenure.line begins active callers acts
  obtain ⟨instr, action, before, hands, line⟩ := line.split
  have sameCreation : creation.machine.frame.code = code := before.code.trans same
  obtain ⟨_, _, executes⟩ := hands.executes
  have here := executes.found
  rw [sameCreation, show creation.machine.position = loop.create from creates, setUp] at here
  cases here
  obtain ⟨items, source, subject, below, held, visited, turning, placed⟩ :=
    layout.created hands creates
  have sameStart := hands.code.trans sameCreation
  obtain ⟨bound, turning, placed⟩ := layout.line line sameStart turning placed running there
  exact ⟨id, part, places, items, source, subject, below, layout, held, visited, bound, turning,
    placed, line.code.trans sameStart, top⟩

/-- A loop over items, in a body that has enough numbers for its loops, goes through what its
subject has when the loop is set up. Whatever its statements and the functions that they call do,
each turn binds the variable to the next item: as long as the loop has not been left, the items of
the turns that have begun are the first ones, each once and in their order. The next instruction
keeps the loop, or leaves the function, or leaves the loop: there is no item left then, unless it
is a `break` of the loop; the frame goes on at the end of the loop, and the state of the loop is
gone. Where a turn would begin and there is no item left, the loop is indeed left. -/
theorem for_loops_visit_snapshots {sourceName : Option String} {kind : BodyKind}
    {stmts : List Stmt} {functions result : Array Definition} {code : Code} {loop : ForLoop}
    {later earlier : List (Visit σ)} {creation : Visit σ} (few : FewLoops stmts)
    (compiled : compileBody sourceName kind stmts functions = .ok (code, result))
    (member : loop ∈ stmtsForLoops 0 stmts) (same : first.frame.code = code)
    (active : first.Active) (callers : first.callers = outer)
    (begins : first.Stands outer)
    (tenure : Tenure host outer first initial (later ++ creation :: earlier) machine world)
    (creates : creation.position = loop.create)
    (running : ∀ visit ∈ later, visit.position ≠ loop.stop) (there : machine.position ≠ loop.stop)
    (acts : machine.Acts outer) :
    ∃ id items source subject below, creation.machine.stack = subject :: below ∧
      loopItems creation.world.heap subject = .ok (items, source) ∧
      List.Forall₂ (Visit.Binds host loop.var source) (loop.turned later)
        (items.toList.take (loop.turned later).length) ∧
      machine.frame.Turning loop id items source (loop.turned later).length ∧
      (machine.position = loop.next → (loop.turned later).length = items.size →
        ∃ next after,
          { machine with status := .running }.Executes host world (loop.turn id) next after) ∧
      ∀ instr next after, { machine with status := .running }.Executes host world instr next after →
        instr.op = .return ∧ outer = next.frame :: next.callers ∨
          ∃ frame, frame :: outer <:+ next.frame :: next.callers ∧
            Visit.Turns host loop id items source (loop.turned later).length
              ⟨{ machine with status := .running }, world⟩ frame := by
  obtain ⟨id, part, places, items, source, subject, below, layout, held, visited, bound, turning,
    placed, sameNow, top⟩ :=
    tenure.inLoop few compiled member same active callers begins creates running there acts
  refine ⟨id, items, source, subject, below, held, visited, bound, turning, ?_, ?_⟩
  · intro here all
    rw [all] at turning
    exact layout.ends world rfl acts.2 sameNow turning here
  · intro instr next after executes
    exact executes.inLoop layout top sameNow turning placed

end Machine

/-- A program with a loop over the items of `["a", "b"]` that goes on at once. -/
def Code.goesThroughTexts (entries : Array SourceEntry) : Code where
  instrs := #[pushValue (.text "a"), pushValue (.text "b"), withCount .buildList 2,
    { op := .createForLoop, first := .int 0, second := .name "x" },
    { op := .iterateForLoop, first := .int 0, second := .addr 7 }, withCount .continueForLoop 0,
    jumpTo .jump 4]
  entries

/-- Both items have had their turns, in their order, and the loop is left. -/
theorem Machine.loop_over_texts_finishes :
    ∃ (loop : ForLoop) (id : Nat) (later : List (Visit Unit)) (machine next : Machine)
      (world after : World Unit),
      machine.Executes .silent world (loop.turn id) next after ∧
        List.Forall₂ (Visit.Binds .silent "x" none) (loop.turned later)
          [.text "a", .text "b"] ∧
        next.position = loop.stop ∧ next.frame.loop? id = none := by
  let loop : ForLoop :=
    ⟨0, "x", .list default 0 [.text "a" default 0, .text "b" default 0], [.continueLoop 0 default]⟩
  let program : Stmt := .forLoop 0 default ⟨"x", default, 0⟩ loop.subject loop.body
  obtain ⟨entries, written⟩ : ∃ entries,
      compileBody none .program [program] #[] = .ok (Code.goesThroughTexts entries, #[]) :=
    ⟨_, (compileBody_eq_layBody _ _ _ _).trans (by rfl)⟩
  let running (position : Nat) (loops : List LoopState) (stack : List Value) : Machine :=
    { frame := { code := Code.goesThroughTexts entries, position, scope := ⟨0⟩, loops }
      stack, status := .running }
  let state : LoopState := { id := 0, var := "x", items := #[.text "a", .text "b"], source := none }
  let turned (index : Nat) : LoopState := { state with start := 4, exit := 7, index }
  let world : World Unit := .initial {} ()
  let pushed := (world.pass 1000).pass 1000
  let listed := (pushed.pass 1000).modifyHeap (Draft.list #[.text "a", .text "b"]).addTo
  let bound (world : World Unit) (item : Value) : World Unit :=
    (world.pass 1000).modifyHeap fun heap =>
      heap.insert (world.heap.vars ⟨0⟩) (.text "x") item
  let first := bound (listed.pass 1000) (.text "a")
  let second := bound (first.pass 1000) (.text "b")
  have stands {machine : Machine} (going : machine.status = .running)
      (unfinished : machine.frame.isDone = false) : machine.Stands [] :=
    ⟨going ▸ nofun, Nat.zero_le _, fun _ => unfinished⟩
  have continues (index : Nat) (world : World Unit) :
      (running 5 [turned index] []).step .silent (World.poll .silent) world =
        ⟨running 4 [turned index] [], world.pass 1000, none⟩ := rfl
  have leaves (world : World Unit) : (running 4 [turned 2] []).Executes .silent world (loop.turn 0)
      (running 7 [] []) (world.pass 1000) := ⟨rfl, rfl, rfl, rfl⟩
  let creation : Visit Unit := ⟨running 3 [] [.list ⟨0⟩], listed⟩
  let earlier : List (Visit Unit) :=
    [⟨running 2 [] [.text "b", .text "a"], pushed⟩, ⟨running 1 [] [.text "a"], world.pass 1000⟩,
      ⟨running 0 [] [], world⟩]
  have pushes : Tenure .silent [] (running 0 [] []) world [⟨running 0 [] [], world⟩]
      (running 1 [] [.text "a"]) (world.pass 1000) :=
    Tenure.start.goesOn (World.poll .silent) rfl (stands rfl rfl)
  have pushesMore : Tenure .silent [] (running 0 [] []) world
      [⟨running 1 [] [.text "a"], world.pass 1000⟩, ⟨running 0 [] [], world⟩]
      (running 2 [] [.text "b", .text "a"]) pushed :=
    pushes.goesOn (World.poll .silent) rfl (stands rfl rfl)
  have builds : Tenure .silent [] (running 0 [] []) world earlier creation.machine listed :=
    pushesMore.goesOn (World.poll .silent) rfl (stands rfl rfl)
  have setsUp : Tenure .silent [] (running 0 [] []) world (creation :: earlier)
      (running 4 [state] []) (listed.pass 1000) :=
    builds.goesOn (World.poll .silent) rfl (stands rfl rfl)
  let once : List (Visit Unit) :=
    [⟨running 5 [turned 1] [], first⟩, ⟨running 4 [state] [], listed.pass 1000⟩]
  have begins : Tenure .silent [] (running 0 [] []) world
      (⟨running 4 [state] [], listed.pass 1000⟩ :: creation :: earlier)
      (running 5 [turned 1] []) first :=
    setsUp.goesOn (World.poll .silent) rfl (stands rfl rfl)
  have goesOn : Tenure .silent [] (running 0 [] []) world (once ++ creation :: earlier)
      (running 4 [turned 1] []) (first.pass 1000) :=
    begins.goesOn (World.poll .silent) (continues 1 first) (stands rfl rfl)
  let later : List (Visit Unit) :=
    ⟨running 5 [turned 2] [], second⟩ :: ⟨running 4 [turned 1] [], first.pass 1000⟩ :: once
  have beginsAgain : Tenure .silent [] (running 0 [] []) world
      (⟨running 4 [turned 1] [], first.pass 1000⟩ :: (once ++ creation :: earlier))
      (running 5 [turned 2] []) second :=
    goesOn.goesOn (World.poll .silent) rfl (stands rfl rfl)
  have goesOnAgain : Tenure .silent [] (running 0 [] []) world (later ++ creation :: earlier)
      (running 4 [turned 2] []) (second.pass 1000) :=
    beginsAgain.goesOn (World.poll .silent) (continues 2 second) (stands rfl rfl)
  have member : loop ∈ stmtsForLoops 0 [program] := List.mem_cons_self
  have callers : (running 0 [] []).callers = [] := rfl
  have active : (running 0 [] []).Active := ⟨Or.inr rfl, rfl⟩
  have inside : ∀ visit ∈ later, visit.position ≠ loop.stop :=
    List.forall_mem_cons.mpr ⟨nofun, List.forall_mem_cons.mpr ⟨nofun,
      List.forall_mem_cons.mpr ⟨nofun, List.forall_mem_singleton.mpr nofun⟩⟩⟩
  have creates : creation.position = loop.create := rfl
  have there : (running 4 [turned 2] []).position ≠ loop.stop := nofun
  have acts : (running 4 [turned 2] []).Acts [] := ⟨rfl, rfl⟩
  obtain ⟨id, items, source, subject, below, held, visited, bound, turning, -, steps⟩ :=
    Machine.for_loops_visit_snapshots (by decide) written member rfl active callers (stands rfl rfl)
      goesOnAgain creates inside there acts
  have holds : Machine.loopItems creation.world.heap (.list ⟨0⟩) =
      .ok (#[.text "a", .text "b"], none) := rfl
  have two : (loop.turned later).length = 2 := rfl
  cases held
  cases holds.symm.trans visited
  rw [two] at bound
  refine ⟨loop, 0, later, _, _, _, _, leaves (second.pass 1000), bound, ?_⟩
  rcases steps _ _ _ (leaves (second.pass 1000)) with ⟨isReturn, -⟩ | ⟨frame, above, turns⟩
  · cases isReturn
  · obtain ⟨rfl, -⟩ := List.cons.inj (above.eq_of_length rfl)
    cases turns with
    | begins here next => cases next
    | finishes here all place gone => exact ⟨place, gone⟩
    | inside away => exact absurd rfl away
    | breaks away => exact absurd rfl away

end MiniScript
