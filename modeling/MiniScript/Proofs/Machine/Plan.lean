import MiniScript.Proofs.Code.Layout
import MiniScript.Proofs.Machine.Outcome

/-!
# What the instructions of laid out code plan

If an instruction is accepted at a slot and the frame holds what the slot says, the
instruction plans an action that leads to one of the next places or, as a `return`,
out of the frame. It finds its operands and its loops; what can go wrong is a
runtime error.
-/

namespace MiniScript

open Compiler

namespace Machine

variable {σ : Type} {world : World σ} {machine : Machine} {position taken put : Nat}

theorem popMany_safe {count : Nat} (enough : count ≤ machine.stack.length) :
    Safe (fun popped : List Value × Machine =>
        ∃ stack, popped.2 = { machine with stack } ∧ stack.length + count = machine.stack.length)
      (machine.popMany count) := by
  rw [popMany, popMany?, if_neg (Nat.not_lt_of_le enough)]
  refine .ok ⟨machine.stack.drop count, rfl, ?_⟩
  rw [List.length_drop, Nat.sub_add_cancel enough]

/-- The action goes on with the next instruction; the operands move as the numbers say. -/
def Moves (machine : Machine) (taken put : Nat) (action : Action) : Prop :=
  ∃ stack, action.next = { machine with stack } ∧
    stack.length + action.owed + taken = machine.stack.length + put

theorem planStore_moves {stack : List Value} (subject key value : Value)
    (length : stack.length + taken = machine.stack.length) :
    Safe (machine.Moves taken 0)
      (orFault (planStore world.heap { machine with stack } subject key value)) := by
  cases subject with
  | map map => exact .ok ⟨stack, rfl, length⟩
  | list list =>
      cases key with
      | number index =>
          unfold planStore
          dsimp only
          cases Sequence.position index (world.heap.items list).size with
          | error fault => exact .fault _
          | ok place => exact .ok ⟨stack, rfl, length⟩
      | _ => exact .fault _
  | _ => exact .fault _

/-- With enough operands, an instruction that goes straight on cannot fail for lack of them. -/
theorem plan_straight {instr : Instr} (moves : instr.Straight taken put)
    (enough : taken ≤ machine.stack.length) :
    Safe (machine.Moves taken put) (plan world machine position instr) := by
  obtain ⟨frame, callers, stack, status, yields, native⟩ := machine
  cases moves with
  | pushValue value => exact .ok ⟨value :: stack, rfl, rfl⟩
  | pushFunction ref => exact .ok ⟨_ :: stack, rfl, rfl⟩
  | pushScope kind => exact .ok ⟨_ :: stack, rfl, rfl⟩
  | loadVar name => exact Safe.orFault fun value => .ok ⟨value :: stack, rfl, rfl⟩
  | callVar name count =>
      refine (popMany_safe enough).bind ?_
      rintro ⟨args, next⟩ ⟨rest, rfl, length⟩
      exact Safe.orFault fun callee => .ok ⟨rest, rfl, by rw [← length, Action.owed]; omega⟩
  | assignVar name =>
      match stack, enough with
      | value :: rest, _ => exact .ok ⟨rest, rfl, rfl⟩
  | loadIndex =>
      match stack, enough with
      | key :: subject :: rest, _ =>
          exact Safe.orFault fun member => .ok ⟨member.value :: rest, rfl, rfl⟩
  | callIndex count =>
      refine (popMany_safe (by omega)).bind ?_
      rintro ⟨args, next⟩ ⟨rest, rfl, length⟩
      match rest, show 2 ≤ rest.length by dsimp only at *; omega with
      | key :: subject :: below, _ =>
          refine Safe.orFault fun member => .ok ⟨below, rfl, ?_⟩
          rw [← length, Action.owed, List.length_cons, List.length_cons]
          omega
  | assignIndex =>
      match stack, enough with
      | value :: key :: subject :: rest, _ => exact planStore_moves subject key value rfl
  | loadSuperIndex =>
      match stack, enough with
      | key :: rest, _ => exact Safe.orFault fun member => .ok ⟨member.value :: rest, rfl, rfl⟩
  | callSuper count =>
      refine (popMany_safe (by omega)).bind ?_
      rintro ⟨args, next⟩ ⟨rest, rfl, length⟩
      match rest, show 1 ≤ rest.length by dsimp only at *; omega with
      | key :: below, _ =>
          refine Safe.orFault fun member => .ok ⟨below, rfl, ?_⟩
          rw [← length, Action.owed, List.length_cons]
          omega
  | callValue count =>
      refine (popMany_safe (by omega)).bind ?_
      rintro ⟨args, next⟩ ⟨rest, rfl, length⟩
      match rest, show 1 ≤ rest.length by dsimp only at *; omega with
      | callee :: below, _ =>
          refine .ok ⟨below, rfl, ?_⟩
          rw [← length, Action.owed, List.length_cons]
          omega
  | slice =>
      match stack, enough with
      | last :: first :: subject :: rest, _ => exact Safe.orFault fun draft => .ok ⟨rest, rfl, rfl⟩
  | buildList count =>
      refine (popMany_safe enough).bind ?_
      rintro ⟨items, next⟩ ⟨rest, rfl, length⟩
      exact .ok ⟨rest, rfl, by rw [← length, Action.owed]; omega⟩
  | buildMap count =>
      refine (popMany_safe enough).bind ?_
      rintro ⟨flat, next⟩ ⟨rest, rfl, length⟩
      exact .ok ⟨rest, rfl, by rw [← length, Action.owed]; omega⟩
  | binary op =>
      match stack, enough with
      | right :: left :: rest, _ => exact Safe.orFault fun draft => .ok ⟨rest, rfl, rfl⟩
  | compareKeep op =>
      match stack, enough with
      | right :: left :: rest, _ => exact Safe.orFault fun draft => .ok ⟨right :: rest, rfl, rfl⟩
  | unary op =>
      match stack, enough with
      | value :: rest, _ =>
          cases op with
          | neg => exact Safe.orFault fun negated => .ok ⟨negated :: rest, rfl, rfl⟩
          | not => exact .ok ⟨_ :: rest, rfl, rfl⟩
          | new => exact Safe.orFault fun draft => .ok ⟨rest, rfl, rfl⟩
  | pop =>
      match stack, enough with
      | value :: rest, _ => exact .ok ⟨rest, rfl, rfl⟩
  | dup2 =>
      match stack, enough with
      | top :: below :: rest, _ => exact .ok ⟨top :: below :: top :: below :: rest, rfl, rfl⟩

end Machine

namespace Frame

/-- The frame is running those loops; where the bounds of one are known, they are its bounds. -/
def Runs (frame : Frame) (loops : List OpenLoop) : Prop :=
  ∀ running ∈ loops, ∃ loop, frame.loop? running.id = some loop ∧
    ∀ start stop, running.bounds = some (start, stop) → loop.start = start ∧ loop.exit = stop

variable {frame : Frame} {loops : List OpenLoop} {id : Nat}

theorem loop?_id {loop : LoopState} (found : frame.loop? id = some loop) : loop.id = id :=
  eq_of_beq (List.find?_eq_some_iff_append.mp found).1

theorem loop?_dropLoop_of_ne {other : Nat} (apart : other ≠ id) :
    (frame.dropLoop id).loop? other = frame.loop? other := by
  unfold dropLoop loop?
  dsimp only
  rw [List.find?_filter]
  refine congrArg (fun test => frame.loops.find? test) (funext fun loop => ?_)
  by_cases same : loop.id = other
  · subst same
    simp [apart]
  · simp [same]

theorem loop?_putLoop_of_ne {loop : LoopState} {other : Nat} (apart : other ≠ loop.id) :
    (frame.putLoop loop).loop? other = frame.loop? other := by
  have differs : (loop.id == other) = false := beq_eq_false_iff_ne.mpr apart.symm
  have found : (frame.putLoop loop).loop? other = (frame.dropLoop loop.id).loop? other := by
    unfold putLoop loop?
    rw [List.find?_cons, differs]
  exact found.trans (loop?_dropLoop_of_ne apart)

namespace Runs

theorem tail {running : OpenLoop} (runs : frame.Runs (running :: loops)) : frame.Runs loops :=
  fun other member => runs other (List.mem_cons_of_mem _ member)

theorem dropLoop (runs : frame.Runs loops) (apart : id ∉ loops.map (·.id)) :
    (frame.dropLoop id).Runs loops := by
  intro running member
  obtain ⟨loop, found, bounds⟩ := runs running member
  have differs : running.id ≠ id := fun same => apart (List.mem_map.mpr ⟨running, member, same⟩)
  exact ⟨loop, (loop?_dropLoop_of_ne differs).trans found, bounds⟩

theorem putLoop (loop : LoopState) (runs : frame.Runs loops) (apart : loop.id ∉ loops.map (·.id))
    {bounds : Option (Nat × Nat)}
    (agrees : ∀ start stop, bounds = some (start, stop) → loop.start = start ∧ loop.exit = stop) :
    (frame.putLoop loop).Runs (⟨loop.id, bounds⟩ :: loops) := by
  refine List.forall_mem_cons.mpr ⟨⟨loop, loop?_putLoop frame loop, agrees⟩, ?_⟩
  intro running member
  obtain ⟨other, found, known⟩ := runs running member
  have differs : running.id ≠ loop.id :=
    fun same => apart (List.mem_map.mpr ⟨running, member, same⟩)
  exact ⟨other, (loop?_putLoop_of_ne differs).trans found, known⟩

/-- The bounds of the innermost loop may be forgotten. -/
theorem forget {bounds : Option (Nat × Nat)} (runs : frame.Runs (⟨id, bounds⟩ :: loops)) :
    frame.Runs (⟨id, none⟩ :: loops) := by
  obtain ⟨⟨loop, found, _⟩, rest⟩ := List.forall_mem_cons.mp runs
  exact List.forall_mem_cons.mpr ⟨⟨loop, found, nofun⟩, rest⟩

end Runs

end Frame

namespace Machine

variable {σ : Type} {world : World σ} {machine : Machine} {position : Nat}

/-- The action leads on to one of the next places, in the same frame and with the operands that the
slot there says, or it leaves the frame with the only operand of the frame. -/
inductive Leads (next : Places) (machine : Machine) (instr : Instr) (slot : Slot)
    (action : Action) : Prop where
  | onward (place : Nat) (loops : List LoopState) (stack : List Value) (after : Slot)
      (same : action.next =
        { machine with frame := { machine.frame with position := place, loops }, stack })
      (reached : next place after) (runs : Frame.Runs { machine.frame with loops } after.loops)
      (moved : stack.length + action.owed + slot.height = machine.stack.length + after.height)
  | leave (value : Value) (stack : List Value) (isReturn : instr.op = .return)
      (only : slot.height = 1) (inner : machine.callers ≠ [])
      (same : action = .proceed ({ machine with stack }.leave value))
      (moved : stack.length + 1 = machine.stack.length)

/-- A conditional jump takes its operand and either goes on or jumps. -/
theorem plan_branch {op : Opcode} {target : Nat} (branches : op = .jumpIfFalse ∨ op = .jumpIfTrue)
    {value : Value} {stack : List Value} (same : machine.stack = value :: stack) :
    plan world machine position (jumpTo op target) = .ok (.proceed { machine with stack }) ∨
      plan world machine position (jumpTo op target) =
        .ok (.proceed ({ machine with stack }.jump target)) := by
  obtain ⟨frame, callers, _, status, yields, native⟩ := machine
  subst same
  rcases branches with rfl | rfl
  · cases truthy : world.heap.isTruthy value with
    | true => exact Or.inl (if_pos truthy)
    | false => exact Or.inr (if_neg (Bool.eq_false_iff.mp truthy))
  · cases truthy : world.heap.isTruthy value with
    | true => exact Or.inr (if_pos truthy)
    | false => exact Or.inl (if_neg (Bool.eq_false_iff.mp truthy))

theorem plan_return {value : Value} {stack : List Value} (same : machine.stack = value :: stack) :
    plan world machine position { op := .return } =
      .ok (.proceed ({ machine with stack }.leave value)) := by
  obtain ⟨frame, callers, _, status, yields, native⟩ := machine
  subst same
  rfl

theorem loopOperand_of_lt (heap : Heap) (op : Opcode) {id : Nat} (small : id < UInt32.size) :
    loopOperand heap op (.int id) = .ok id := by
  have fits : ((id : Int) < (UInt32.size : Nat)) := Int.ofNat_lt.mpr small
  have passes : (decide (0 ≤ (id : Int)) && (some UInt32.size).all fun limit =>
      decide ((id : Int) < (limit : Nat))) = true := by
    rw [Option.all_some, decide_eq_true fits, decide_eq_true (Int.natCast_nonneg id)]
    rfl
  unfold loopOperand natOperand
  exact if_pos passes

/-- A loop begins with the items of its subject. -/
theorem plan_create {id : Nat} (var : String) (small : id < UInt32.size)
    {value : Value} {stack : List Value} (same : machine.stack = value :: stack) :
    plan world machine position { op := .createForLoop, first := .int id, second := .name var } =
      orFault (loopItems world.heap value) >>= fun visited => .ok (.proceed { machine with
        frame := machine.frame.putLoop { id, var, items := visited.1, source := visited.2 }
        stack }) := by
  obtain ⟨frame, callers, _, status, yields, native⟩ := machine
  subst same
  unfold plan
  dsimp only
  rw [loopOperand_of_lt _ _ small]
  rfl

theorem activeLoop_of_found {id : Nat} {loop : LoopState}
    (found : machine.frame.loop? id = some loop) : machine.activeLoop id = .ok loop := by
  rw [activeLoop, found]

theorem plan_iterate {id stop : Nat} (small : id < UInt32.size) {loop : LoopState}
    (found : machine.frame.loop? id = some loop) :
    plan world machine position { op := .iterateForLoop, first := .int id, second := .addr stop } =
      .ok (planTurn world machine position stop loop) := by
  unfold plan
  dsimp only
  rw [loopOperand_of_lt _ _ small]
  exact congrArg (· >>= fun loop => pure (planTurn world machine position stop loop))
    (activeLoop_of_found found)

theorem plan_break {id : Nat} (small : id < UInt32.size) {loop : LoopState}
    (found : machine.frame.loop? id = some loop) :
    plan world machine position (withCount .breakForLoop id) =
      .ok (.proceed
        { machine with frame := { machine.frame.dropLoop id with position := loop.exit } }) := by
  unfold plan withCount
  dsimp only
  rw [loopOperand_of_lt _ _ small]
  exact congrArg (· >>= fun loop => pure (Action.proceed
    { machine with frame := { machine.frame.dropLoop id with position := loop.exit } }))
    (activeLoop_of_found found)

theorem plan_continue {id : Nat} (small : id < UInt32.size) {loop : LoopState}
    (found : machine.frame.loop? id = some loop) :
    plan world machine position (withCount .continueForLoop id) =
      .ok (.proceed (machine.jump loop.start)) := by
  unfold plan withCount
  dsimp only
  rw [loopOperand_of_lt _ _ small]
  exact congrArg (· >>= fun loop => pure (Action.proceed (machine.jump loop.start)))
    (activeLoop_of_found found)

/-- The next turn of a loop is behind the instruction, its end is where the instruction says. -/
theorem planTurn_leads {next : Places} {instr : Instr} {stop height : Nat} {loop : LoopState}
    {bounds : Option (Nat × Nat)} {loops : List OpenLoop}
    (apart : loop.id ∉ loops.map (·.id))
    (onward : next (position + 1) ⟨height, ⟨loop.id, some (position, stop)⟩ :: loops⟩)
    (away : next stop ⟨height, loops⟩) (behind : machine.frame.position = position + 1)
    (runs : machine.frame.Runs (⟨loop.id, bounds⟩ :: loops)) :
    Leads next machine instr ⟨height, ⟨loop.id, bounds⟩ :: loops⟩
      (planTurn world machine position stop loop) := by
  unfold planTurn
  split
  · exact .onward stop _ machine.stack _ rfl away (runs.tail.dropLoop apart) rfl
  · rw [← behind] at onward
    refine .onward machine.frame.position _ machine.stack _ rfl onward ?_ rfl
    refine runs.tail.putLoop { loop with start := position, exit := stop, index := _ } apart ?_
    rintro _ _ ⟨⟩
    exact ⟨rfl, rfl⟩

/-- An instruction that is accepted finds its operands and its loops. -/
theorem plan_accepted {next : Places} {instr : Instr} {slot : Slot}
    (accepts : Accepts machine.callers.isEmpty next position instr slot)
    (behind : machine.frame.position = position + 1) (runs : machine.frame.Runs slot.loops)
    (enough : slot.height ≤ machine.stack.length) :
    Safe (Leads next machine instr slot) (plan world machine position instr) := by
  generalize outermost : machine.callers.isEmpty = isOutermost at accepts
  induction accepts with
  | straight rest moves onward =>
      refine (plan_straight moves (Nat.le_trans (Nat.le_add_left _ _) enough)).mono ?_
      rintro action ⟨stack, same, moved⟩
      rw [← behind] at onward
      exact .onward _ machine.frame.loops stack _ same onward runs (by dsimp only; omega)
  | jump onward => exact .ok (.onward _ machine.frame.loops machine.stack _ rfl onward runs rfl)
  | branch height branches onward away =>
      obtain ⟨value, stack, same⟩ := List.exists_cons_of_length_pos
        (Nat.lt_of_lt_of_le (Nat.succ_pos _) enough)
      have moved : stack.length + 0 + (height + 1) = machine.stack.length + height := by
        rw [same, List.length_cons]
        omega
      rw [← behind] at onward
      rcases plan_branch branches same with planned | planned
      · rw [planned]
        exact .ok (.onward _ machine.frame.loops stack _ rfl onward runs moved)
      · rw [planned]
        exact .ok (.onward _ machine.frame.loops stack _ rfl away runs moved)
  | leave inner =>
      obtain ⟨value, stack, same⟩ := List.exists_cons_of_length_pos
        (Nat.lt_of_lt_of_le (Nat.succ_pos _) enough)
      have callers : machine.callers ≠ [] := by
        intro empty
        rw [empty] at outermost
        exact nomatch outermost.trans inner
      rw [plan_return same]
      exact .ok (.leave value stack rfl rfl callers rfl (congrArg List.length same.symm))
  | drop outer onward =>
      obtain ⟨value, stack, same⟩ := List.exists_cons_of_length_pos
        (Nat.lt_of_lt_of_le (Nat.succ_pos _) enough)
      have stays : { machine with stack }.leave value = { machine with stack } := by
        rw [leave, List.isEmpty_iff.mp (outermost.trans outer)]
      rw [plan_return same, stays]
      rw [← behind] at onward
      refine .ok (.onward _ machine.frame.loops stack _ rfl onward runs ?_)
      rw [same, List.length_cons, Action.owed]
      dsimp only
      omega
  | create height small fresh onward =>
      obtain ⟨value, stack, same⟩ := List.exists_cons_of_length_pos
        (Nat.lt_of_lt_of_le (Nat.succ_pos _) enough)
      rw [plan_create _ small same]
      rw [← behind] at onward
      refine Safe.orFault fun visited => .ok (.onward machine.frame.position _ stack _ rfl onward
        (runs.putLoop _ fresh nofun) ?_)
      rw [same, List.length_cons, Action.owed]
      dsimp only
      omega
  | iterate small apart onward away =>
      obtain ⟨loop, found, _⟩ := runs _ (List.mem_cons_self ..)
      rw [plan_iterate small found]
      have same := Frame.loop?_id found
      subst same
      exact .ok (planTurn_leads apart onward away behind runs)
  | exit small apart away =>
      obtain ⟨loop, found, bounds⟩ := runs _ (List.mem_cons_self ..)
      rw [plan_break small found]
      rw [← (bounds _ _ rfl).2] at away
      exact .ok (.onward _ _ machine.stack _ rfl away (runs.tail.dropLoop apart) rfl)
  | again small away =>
      obtain ⟨loop, found, bounds⟩ := runs _ (List.mem_cons_self ..)
      rw [plan_continue small found]
      rw [← (bounds _ _ rfl).1] at away
      exact .ok (.onward _ _ machine.stack _ rfl away runs.forget rfl)
  | forget less ih =>
      refine (ih runs.forget enough).mono fun action leads => ?_
      cases leads with
      | onward place loops stack after same reached runs moved =>
          exact .onward place loops stack after same reached runs moved
      | leave value stack isReturn only inner same moved =>
          exact .leave value stack isReturn only inner same moved

end Machine

end MiniScript
