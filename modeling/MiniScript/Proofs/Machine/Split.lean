import MiniScript.Machine.Step
import MiniScript.Proofs.Heap.Names
import MiniScript.Proofs.Machine.Action

/-!
# Instructions in two parts

An instruction executes step by step; what it has changed before it fails stays
changed. It comes to the same as planning an action, which changes nothing, and
performing it.
-/

namespace MiniScript

variable {σ : Type}

namespace Machine

/-- The machines are the same once they have been ended by force, and give up the same. -/
structure EndsLike (left machine : Machine) : Prop where
  halted : left.halted = machine.halted
  wait : left.wait? = machine.wait?

theorem EndsLike.refl (machine : Machine) : machine.EndsLike machine :=
  ⟨rfl, rfl⟩

theorem EndsLike.trans {left middle machine : Machine} (first : left.EndsLike middle)
    (second : middle.EndsLike machine) : left.EndsLike machine :=
  ⟨first.halted.trans second.halted, first.wait.trans second.wait⟩

/-- An operand more or less makes no difference to the end. -/
theorem ends_withStack (machine : Machine) (stack : List Value) :
    EndsLike { machine with stack } machine :=
  ⟨rfl, rfl⟩

/-- Performs what has been planned. -/
def settled (host : Host σ) (world : World σ) : Except ScriptError Action → Outcome σ
  | .ok action => perform host action world
  | .error error => (.error error, world)

/-- The operands leave the rest of the machine as it is. -/
theorem pop_rest {machine next : Machine} {value : Value}
    (taken : machine.pop = .ok (value, next)) :
    ∃ stack, next = { machine with stack } := by
  unfold pop pop? at taken
  split at taken
  · rename_i popped
    split at popped
    · cases popped
    · cases popped
      cases taken
      exact ⟨_, rfl⟩
  · cases taken

theorem popMany_rest {machine next : Machine} {count : Nat} {values : List Value}
    (taken : machine.popMany count = .ok (values, next)) :
    ∃ stack, next = { machine with stack } := by
  unfold popMany popMany? at taken
  split at taken
  · rename_i popped
    split at popped
    · cases popped
    · cases popped
      cases taken
      exact ⟨_, rfl⟩
  · cases taken

end Machine

namespace Exec

open Machine

variable {α : Type} {host : Host σ} {machine : Machine} {world : World σ} {outcome : Outcome σ}

/-- A part that fails ends the execution and leaves machine and world as they are then. -/
theorem bind_run {β : Type} (part : Exec σ α) (next : α → Exec σ β) (execution : Execution σ) :
    (part >>= next) execution =
      match part execution with
      | (.ok value, execution) => next value execution
      | (.error error, execution) => (.error error, execution) := by
  show StateT.bind part (ExceptT.bindCont next) execution = _
  unfold StateT.bind
  rcases part execution with ⟨_ | _, _⟩ <;> rfl

theorem take_run (operands : Machine → Except ScriptError (α × Machine)) (machine : Machine)
    (world : World σ) :
    take operands ⟨machine, world⟩ =
      match operands machine with
      | .ok (taken, next) => (.ok taken, ⟨next, world⟩)
      | .error error => (.error error, ⟨machine, world⟩) := by
  show (liftM (operands machine) >>= _ : Exec σ α) ⟨machine, world⟩ = _
  cases operands machine <;> rfl

/-- What a part of an execution comes to. A machine that fails ends as it would have before. -/
def Comes (part : Exec σ Unit) (machine : Machine) (world : World σ) : Outcome σ → Prop
  | (.ok next, after) => part ⟨machine, world⟩ = (.ok (), ⟨next, after⟩)
  | (.error error, after) =>
      ∃ left, part ⟨machine, world⟩ = (.error error, ⟨left, after⟩) ∧ left.EndsLike machine

namespace Comes

/-- A part that begins with something that changes the machine, but not its end. -/
theorem after {part rest : Exec σ Unit} {next : Machine}
    (ends : next.EndsLike machine) (same : part ⟨machine, world⟩ = rest ⟨next, world⟩)
    (comes : Comes rest next world outcome) : Comes part machine world outcome := by
  obtain ⟨result, after⟩ := outcome
  cases result with
  | ok last => exact same.trans comes
  | error error =>
      obtain ⟨left, failed, leaves⟩ := comes
      exact ⟨left, same.trans failed, leaves.trans ends⟩

/-- What comes out elsewhere comes out here, if it goes on there. -/
theorem elsewhere {part rest : Exec σ Unit} {before : World σ}
    (same : part ⟨machine, world⟩ = rest ⟨machine, before⟩)
    (comes : Comes rest machine before outcome) : Comes part machine world outcome := by
  obtain ⟨result, after⟩ := outcome
  cases result with
  | ok last => exact same.trans comes
  | error error =>
      obtain ⟨left, failed, ends⟩ := comes
      exact ⟨left, same.trans failed, ends⟩

theorem of_heap {next : Heap → Exec σ Unit}
    (comes : Comes (next world.heap) machine world outcome) :
    Comes (heap >>= next) machine world outcome :=
  comes

theorem of_scope {next : ScopeRef → Exec σ Unit}
    (comes : Comes (next machine.frame.scope) machine world outcome) :
    Comes (scope >>= next) machine world outcome :=
  comes

theorem of_world {next : World σ → Exec σ Unit} (comes : Comes (next world) machine world outcome) :
    Comes (Exec.world >>= next) machine world outcome :=
  comes

theorem of_machine {next : Machine → Exec σ Unit}
    (comes : Comes (next machine) machine world outcome) :
    Comes (Exec.machine >>= next) machine world outcome :=
  comes

theorem of_lift {result : Except ScriptError α} {next : α → Exec σ Unit}
    {decide : α → Except ScriptError Action}
    (comes : ∀ value, Comes (next value) machine world (settled host world (decide value))) :
    Comes (liftM result >>= next) machine world (settled host world (result >>= decide)) := by
  cases result with
  | error error => exact ⟨machine, rfl, .refl machine⟩
  | ok value => exact comes value

theorem of_check {result : Except Fault α} {next : α → Exec σ Unit}
    {decide : α → Except ScriptError Action}
    (comes : ∀ value, Comes (next value) machine world (settled host world (decide value))) :
    Comes (check result >>= next) machine world
      (settled host world (orFault result >>= decide)) := by
  cases result with
  | error fault => exact ⟨machine, rfl, .refl machine⟩
  | ok value => exact comes value

theorem of_accepted {value : α} {next : α → Exec σ Unit}
    (comes : Comes (next value) machine world outcome) :
    Comes (check (.ok value) >>= next) machine world outcome :=
  comes

theorem of_take {operands : Machine → Except ScriptError (α × Machine)} {next : α → Exec σ Unit}
    {decide : α × Machine → Except ScriptError Action}
    (kept : ∀ {taken rest}, operands machine = .ok (taken, rest) →
      ∃ stack, rest = { machine with stack })
    (comes : ∀ taken stack, Comes (next taken) { machine with stack } world
      (settled host world (decide (taken, { machine with stack })))) :
    Comes (take operands >>= next) machine world
      (settled host world (operands machine >>= decide)) := by
  cases result : operands machine with
  | error error =>
      refine ⟨machine, ?_, .refl machine⟩
      rw [bind_run, take_run, result]
  | ok both =>
      obtain ⟨taken, rest⟩ := both
      obtain ⟨stack, rfl⟩ := kept result
      refine after (ends_withStack machine stack) ?_ (comes taken stack)
      rw [bind_run, take_run, result]

theorem of_pop {next : Value → Exec σ Unit} {decide : Value × Machine → Except ScriptError Action}
    (comes : ∀ value stack, Comes (next value) { machine with stack } world
      (settled host world (decide (value, { machine with stack })))) :
    Comes (pop >>= next) machine world (settled host world (machine.pop >>= decide)) :=
  of_take pop_rest comes

theorem of_popMany {count : Nat} {next : List Value → Exec σ Unit}
    {decide : List Value × Machine → Except ScriptError Action}
    (comes : ∀ values stack, Comes (next values) { machine with stack } world
      (settled host world (decide (values, { machine with stack })))) :
    Comes (popMany count >>= next) machine world
      (settled host world (machine.popMany count >>= decide)) :=
  of_take popMany_rest comes

end Comes

theorem inWorld_run (routine : Routine σ α) (machine : Machine) (world : World σ) :
    inWorld routine ⟨machine, world⟩ =
      match routine world with
      | (.ok value, after) => (.ok value, ⟨machine, after⟩)
      | (.error error, after) => (.error (.runtime error), ⟨machine, after⟩) := by
  have only : inWorld routine ⟨machine, world⟩ =
      inWorld (fun _ => routine world) ⟨machine, world⟩ := rfl
  rw [only]
  rcases routine world with ⟨_ | _, _⟩ <;> rfl

theorem store_run (map : MapRef) (key value : Value) (machine : Machine) (world : World σ) :
    store host map key value ⟨machine, world⟩ =
      match world.store host map key value with
      | (.ok _, after) => (.ok (), ⟨machine, after⟩)
      | (.error error, after) => (.error (.runtime error), ⟨machine, after⟩) := by
  rw [store, inWorld_run]
  rcases world.store host map key value with ⟨_ | _, _⟩ <;> rfl

/-- A store that is refused leaves the machine as it is. -/
theorem Comes.of_store {part : Exec σ Unit} {map : MapRef} {key value : Value} {before : World σ}
    {next : Machine} (ends : next.EndsLike machine)
    (same : part ⟨machine, world⟩ = store host map key value ⟨next, before⟩) :
    Comes part machine world
      (match before.store host map key value with
      | (.ok _, after) => (.ok next, after)
      | (.error error, after) => (.error (.runtime error), after)) := by
  have run := same.trans (store_run map key value next before)
  generalize before.store host map key value = stored at run ⊢
  obtain ⟨error | _, after⟩ := stored
  · exact ⟨next, run, ends⟩
  · exact run

theorem store_comes (map : MapRef) (key value : Value) :
    Comes (store host map key value) machine world
      (perform host (.store machine map key (.plain value)) world) :=
  .of_store (.refl machine) rfl

theorem storeAt_comes (subject key value : Value) :
    Comes (storeAt host subject key value) machine world
      (settled host world (orFault (planStore world.heap machine subject key value))) := by
  unfold storeAt planStore
  cases subject with
  | map map => exact store_comes map key value
  | list list =>
      cases key with
      | number index =>
          refine .of_heap ?_
          dsimp only
          cases Sequence.position index (world.heap.items list).size with
          | error fault => exact ⟨machine, rfl, .refl machine⟩
          | ok position => rfl
      | _ => exact ⟨machine, rfl, .refl machine⟩
  | _ => exact ⟨machine, rfl, .refl machine⟩

section Calls

theorem modify_push {β : Type} (items : Array β) (item : β) (write : β → β) :
    (items.push item).modify items.size write = items.push (write item) := by
  refine Array.ext (by simp) fun index inside _ => ?_
  rw [Array.getElem_modify, Array.getElem_push, Array.getElem_push]
  split
  · rename_i same
    subst same
    simp
  · rename_i other
    have below : index < items.size := by
      rw [Array.size_modify, Array.size_push] at inside
      omega
    simp [below]

/-- A variable that is set in a new scope comes behind those that it has. -/
theorem setLocal_addScope (heap : Heap) (parent : Option ScopeRef) (names : List (String × Value))
    (name : String) (value : Value) :
    (heap.addScope parent (.ofNames names)).setLocal heap.nextScope name value =
      heap.addScope parent (.ofNames (names ++ [(name, value)])) := by
  have vars : (heap.addScope parent (.ofNames names)).vars heap.nextScope =
      ⟨heap.maps.size⟩ := by
    simp [Heap.addScope, Heap.vars, Heap.scopeAt, Heap.nextScope]
  have there : (heap.addScope parent (.ofNames names)).entries ⟨heap.maps.size⟩ =
      (MapObject.ofNames names).entries := by
    simp [Heap.addScope, Heap.entries, Heap.mapAt]
  rw [Heap.setLocal, vars, Heap.insertNamed, Heap.insert, there, Heap.withEntry_text]
  simp only [Heap.modifyMap, Heap.addScope, modify_push, MapObject.ofNames, List.foldl_append,
    List.foldl_cons, List.foldl_nil]

theorem modifyHeap_modifyHeap (world : World σ) (heap : Heap) (write : Heap → Heap) :
    (world.modifyHeap fun _ => heap).modifyHeap write = world.modifyHeap fun _ => write heap := rfl

theorem change_bind (write : Heap → Heap) (next : Unit → Exec σ α) (machine : Machine)
    (world : World σ) :
    (change write >>= next) ⟨machine, world⟩ = next () ⟨machine, world.modifyHeap write⟩ := rfl

/-- A variable is set in a world that is all as it was but for a new scope. -/
theorem setLocal_bind (heap : Heap) (parent : Option ScopeRef) (machine : Machine)
    (world : World σ) (names : List (String × Value)) (name : String) (value : Value)
    (next : Unit → Exec σ α) :
    (setLocal heap.nextScope name value >>= next)
        ⟨machine, world.modifyHeap fun _ => heap.addScope parent (.ofNames names)⟩ =
      next () ⟨machine, world.modifyHeap fun _ =>
        heap.addScope parent (.ofNames (names ++ [(name, value)]))⟩ := by
  rw [setLocal, change_bind, modifyHeap_modifyHeap, setLocal_addScope]

theorem setLocals_run (heap : Heap) (parent : Option ScopeRef) (machine : Machine)
    (world : World σ) (names more : List (String × Value)) :
    setLocals heap.nextScope more
        ⟨machine, world.modifyHeap fun _ => heap.addScope parent (.ofNames names)⟩ =
      (.ok (), ⟨machine, world.modifyHeap fun _ =>
        heap.addScope parent (.ofNames (names ++ more))⟩) := by
  induction more generalizing names with
  | nil => rw [List.append_nil]; rfl
  | cons pair rest ih =>
      rw [setLocals, setLocal_bind, ih, List.append_assoc, List.singleton_append]

/-- The parameters, the receiver and the parent are set one after the other in a scope that begins
empty; the plan has the scope with all of them. -/
theorem enter_comes {definition : Definition} {bound : List Value} (code : Code)
    (outer : Option ScopeRef) (receiver : Option Value) (owner : Option MapRef) :
    Comes (enter code outer ((definition.params.map (·.name)).zip bound) receiver owner) machine
      world (machine.enter code outer (callVars world.heap definition bound receiver owner)
        world) := by
  unfold enter Machine.enter
  refine .of_world (.of_machine ?_)
  split
  · exact ⟨machine, rfl, .refl machine⟩
  · refine .of_world (.of_heap (.of_heap ?_))
    unfold callVars
    dsimp only
    generalize owner.bind world.heap.isaParent? = above
    generalize (definition.params.map (·.name)).zip bound = params
    generalize some (outer.getD world.globals) = parent
    have empty : (world.modifyHeap fun heap => heap.addScope parent {}) =
        world.modifyHeap fun _ => world.heap.addScope parent (.ofNames []) := rfl
    show (change _ >>= _ : Exec σ Unit) ⟨machine, world⟩ = (.ok (), ⟨_, _⟩)
    rw [change_bind, empty, bind_run, setLocals_run, List.nil_append]
    cases receiver <;> cases above <;>
      simp only [setLocal_bind, Option.map_none, Option.map_some, Option.toList_none,
        Option.toList_some, List.append_nil] <;>
      rfl

theorem receive_comes (reply : Reply) :
    Comes (receive reply) machine world (machine.receive reply world) := by
  unfold receive Machine.receive
  cases reply.answer <;> rfl

/-- A native answers, and the machine takes the reply. -/
theorem native_comes (native : Routine σ Reply) :
    Comes (inWorld native >>= receive) machine world
      (machine.receiveOutcome (native world)) := by
  have run := bind_run (inWorld native) receive ⟨machine, world⟩
  rw [inWorld_run] at run
  generalize native world = answered at run ⊢
  obtain ⟨error | reply, after⟩ := answered
  · exact ⟨machine, run, .refl machine⟩
  · exact Comes.elsewhere run (receive_comes reply)

theorem builtin_comes (builtin : Builtin) (call : Invocation) :
    Comes (inWorld (Library.routine builtin call) >>= receive) machine world
      (match Library.effect world builtin call with
      | .ok effect =>
          let (reply, after) := Library.apply effect world
          machine.receive reply after
      | .error fault => refuse fault world) := by
  have comes : Comes (inWorld (Library.routine builtin call) >>= receive) machine world
      (machine.receiveOutcome (Library.routine builtin call world)) := native_comes _
  rw [Library.routine_eq] at comes
  cases decided : Library.effect world builtin call with
  | ok effect =>
      rw [decided] at comes
      exact comes
  | error fault =>
      rw [decided] at comes
      exact comes

theorem call_comes (callee : Value) (args : List Value) (receiver : Option Value)
    (owner : Option MapRef) :
    Comes (call host callee args receiver owner) machine world
      (machine.call host callee args receiver owner world) := by
  unfold call Machine.call
  cases callee with
  | function closure =>
      refine .of_heap ?_
      dsimp only
      cases bindArguments (world.heap.definition closure.definition) args receiver with
      | error fault => exact ⟨machine, rfl, .refl machine⟩
      | ok bound =>
          refine .of_accepted (.of_scope ?_)
          unfold invoke
          dsimp only
          cases (world.heap.definition closure.definition).body with
          | script code => exact enter_comes code _ receiver owner
          | builtin builtin =>
              exact builtin_comes builtin _
          | importer => exact native_comes _
          | host id => exact native_comes _
  | _ =>
      dsimp only
      split
      · rfl
      · exact ⟨machine, rfl, .refl machine⟩

end Calls

section Turns

theorem dropLoop_putLoop (frame : Frame) (loop : LoopState) :
    (frame.putLoop loop).dropLoop loop.id = frame.dropLoop loop.id := by
  simp [Frame.putLoop, Frame.dropLoop, List.filter_filter]

theorem putLoop_putLoop (frame : Frame) {first second : LoopState} (same : second.id = first.id) :
    (frame.putLoop first).putLoop second = frame.putLoop second := by
  have dropped := dropLoop_putLoop frame first
  unfold Frame.putLoop at dropped ⊢
  rw [same, dropped]

/-- The loops of a frame make no difference to the end. -/
theorem ends_withLoops (machine : Machine) (loops : List LoopState) :
    EndsLike { machine with frame := { machine.frame with loops } } machine := by
  refine ⟨?_, rfl⟩
  unfold halted outermost
  cases machine.callers.getLast? <;> rfl

/-- The loop notes where it starts and ends before it takes its turn. -/
theorem iterate_comes (position id exit : Nat) :
    Comes (iterate host position id exit) machine world
      (settled host world (do
        let loop ← machine.activeLoop id
        return planTurn world machine position exit loop)) := by
  refine .of_machine (.of_lift fun loop => ?_)
  unfold planTurn
  dsimp only
  cases loop.items[loop.index]? with
  | none =>
      show _ = (Except.ok (), (⟨_, _⟩ : Execution σ))
      rw [← dropLoop_putLoop machine.frame { loop with start := position, exit }]
      rfl
  | some item =>
      have noted := putLoop_putLoop machine.frame
        (show { loop with start := position, exit, index := loop.index + 1 }.id =
          { loop with start := position, exit }.id from rfl)
      refine .of_store (ends_withLoops machine _) ?_
      rw [← noted]
      cases loop.source <;> rfl

end Turns

theorem jump_comes (target : Operand) :
    Comes (jump target) machine world
      (settled host world (do
        let address ← addressOperand world.heap target
        return .proceed (machine.jump address))) :=
  .of_heap (.of_lift fun _ => rfl)

theorem instruction_comes (position : Nat) (instr : Instr) :
    Comes (instruction host position instr) machine world
      (settled host world (plan world machine position instr)) := by
  obtain ⟨op, first, second⟩ := instr
  unfold instruction plan
  cases op with
  | pushValue =>
      dsimp only
      cases first with
      | value value => rfl
      | _ => exact .of_heap ⟨machine, rfl, .refl machine⟩
  | pushFunction =>
      dsimp only
      cases first with
      | func ref => rfl
      | _ => exact .of_heap ⟨machine, rfl, .refl machine⟩
  | pushScope =>
      dsimp only
      cases first with
      | scope kind => rfl
      | _ => exact .of_heap ⟨machine, rfl, .refl machine⟩
  | loadVar =>
      dsimp only
      exact .of_heap (.of_lift fun name => .of_world (.of_scope (.of_check fun value => rfl)))
  | callVar =>
      dsimp only
      exact .of_heap (.of_lift fun name => .of_heap (.of_lift fun count => .of_popMany
        fun args stack => .of_world (.of_scope (.of_check fun callee => call_comes _ _ _ _))))
  | assignVar =>
      dsimp only
      refine .of_heap (.of_lift fun name => .of_pop fun value stack => .of_heap (.of_scope ?_))
      exact store_comes _ _ _
  | loadIndex =>
      dsimp only
      exact .of_pop fun key stack => .of_pop fun subject stack => .of_world
        (.of_check fun member => rfl)
  | callIndex =>
      dsimp only
      exact .of_heap (.of_lift fun count => .of_popMany fun args stack => .of_pop fun key stack =>
        .of_pop fun subject stack => .of_world (.of_check fun member => call_comes _ _ _ _))
  | callSuper =>
      dsimp only
      exact .of_heap (.of_lift fun count => .of_popMany fun args stack => .of_pop fun key stack =>
        .of_world (.of_scope (.of_check fun member => .of_scope (call_comes _ _ _ _))))
  | callValue =>
      dsimp only
      exact .of_heap (.of_lift fun count => .of_popMany fun args stack => .of_pop
        fun callee stack => call_comes _ _ _ _)
  | loadSuperIndex =>
      dsimp only
      exact .of_pop fun key stack => .of_world (.of_scope (.of_check fun member => rfl))
  | slice =>
      dsimp only
      exact .of_pop fun last stack => .of_pop fun first stack => .of_pop fun subject stack =>
        .of_heap (.of_check fun draft => rfl)
  | buildList =>
      dsimp only
      exact .of_heap (.of_lift fun count => .of_popMany fun items stack => rfl)
  | buildMap =>
      dsimp only
      exact .of_heap (.of_lift fun count => .of_popMany fun flat stack => .of_heap rfl)
  | binary =>
      dsimp only
      exact .of_heap (.of_lift fun op => .of_pop fun right stack => .of_pop fun left stack =>
        .of_world (.of_check fun draft => rfl))
  | compareKeep =>
      dsimp only
      exact .of_heap (.of_lift fun op => .of_pop fun right stack => .of_pop fun left stack =>
        .of_world (.of_check fun draft => rfl))
  | negate =>
      dsimp only
      exact .of_pop fun value stack => .of_check fun negated => rfl
  | not =>
      dsimp only
      exact .of_pop fun value stack => .of_heap rfl
  | new =>
      dsimp only
      exact .of_pop fun parent stack => .of_check fun draft => rfl
  | pop =>
      dsimp only
      exact .of_pop fun value stack => rfl
  | jump =>
      dsimp only
      exact jump_comes first
  | assignIndex =>
      dsimp only
      exact .of_pop fun value stack => .of_pop fun key stack => .of_pop fun subject stack =>
        storeAt_comes subject key value
  | dup2 =>
      dsimp only
      obtain ⟨frame, callers, stack, status, wait?, yields, native⟩ := machine
      refine .of_machine ?_
      match stack with
      | [] => exact ⟨_, rfl, .refl _⟩
      | [_] => exact ⟨_, rfl, .refl _⟩
      | top :: below :: rest => rfl
  | jumpIfFalse =>
      dsimp only
      refine .of_pop fun value stack => .of_heap ?_
      dsimp only
      split
      · rfl
      · exact jump_comes _
  | jumpIfTrue =>
      dsimp only
      refine .of_pop fun value stack => .of_heap ?_
      dsimp only
      split
      · exact jump_comes _
      · rfl
  | «return» =>
      dsimp only
      exact .of_pop fun value stack => rfl
  | createForLoop =>
      dsimp only
      exact .of_heap (.of_lift fun id => .of_heap (.of_lift fun var => .of_pop
        fun subject stack => .of_heap (.of_check fun loop => rfl)))
  | iterateForLoop =>
      dsimp only
      exact .of_heap (.of_lift fun id => .of_heap (.of_lift fun exit => iterate_comes _ _ _))
  | breakForLoop =>
      dsimp only
      exact .of_heap (.of_lift fun id => .of_machine (.of_lift fun loop => rfl))
  | continueForLoop =>
      dsimp only
      exact .of_heap (.of_lift fun id => .of_machine (.of_lift fun loop => rfl))

theorem Comes.execute_eq {position : Nat} {instr : Instr}
    (comes : Comes (instruction host position instr) machine world outcome) :
    machine.execute host position instr world = outcome := by
  unfold execute
  obtain ⟨error | next, after⟩ := outcome
  · obtain ⟨left, failed, -⟩ := comes
    rw [failed]
  · rw [show instruction host position instr ⟨machine, world⟩ = (.ok (), ⟨next, after⟩) from comes]

end Exec

namespace Machine

variable {host : Host σ} {machine : Machine} {world : World σ} {position : Nat} {instr : Instr}

/-- An instruction comes to what it plans. -/
theorem execute_eq : machine.execute host position instr world =
    match plan world machine position instr with
    | .ok action => perform host action world
    | .error error => (.error error, world) := by
  have comes : Exec.Comes (Exec.instruction host position instr) machine world
      (settled host world (plan world machine position instr)) :=
    Exec.instruction_comes position instr
  rw [comes.execute_eq]
  cases plan world machine position instr <;> rfl

theorem EndsLike.abort {left : Machine} (ends : left.EndsLike machine) (world : World σ)
    (error : ScriptError) : left.abort world error = machine.abort world error := by
  unfold Machine.abort halt World.cancelWait
  rw [ends.halted, ends.wait]

/-- A machine that fails is ended as it was when it began the instruction. -/
theorem advance_eq (host : Host σ) (machine : Machine) (world : World σ) :
    machine.advance host world =
      match machine.frame.code.instrs[machine.frame.position]? with
      | none => machine.begun.abort world (.internal (.noInstruction machine.frame.position))
      | some instr =>
          match machine.begun.execute host machine.frame.position instr (world.pass 1000) with
          | (.ok next, world) =>
              if next.status = .running then next.settle world else { machine := next, world }
          | (.error error, world) =>
              machine.begun.abort world
                (error.locate machine.frame.code machine.frame.position) := by
  unfold advance
  dsimp only
  cases machine.frame.code.instrs[machine.frame.position]? with
  | none => rfl
  | some instr =>
      have comes : Exec.Comes (Exec.instruction host machine.frame.position instr) machine.begun
          (world.pass 1000) _ := Exec.instruction_comes machine.frame.position instr
      have executed := comes.execute_eq
      generalize settled host (world.pass 1000) _ = outcome at comes executed
      dsimp only
      rw [executed]
      obtain ⟨error | next, after⟩ := outcome
      · obtain ⟨left, failed, ends⟩ := comes
        rw [failed]
        exact ends.abort after _
      · rw [show Exec.instruction host machine.frame.position instr
          ⟨machine.begun, world.pass 1000⟩ = (.ok (), ⟨next, after⟩) from comes]

end Machine

end MiniScript
