import MiniScript.Proofs.Machine.Driving
import MiniScript.Proofs.Machine.Standing
import MiniScript.Proofs.Machine.Suspension

/-!
# Calls of natives

A native may be part of the library, the importer of modules or a function of the
host. The next instruction of a machine that does not wait calls at most one. The
native answers at once, or the machine waits and is given the answer later; in both
cases the machine comes to the same point, which depends on the answer only.
-/

namespace MiniScript

variable {σ : Type}

namespace Library

/-- What a native answers when it is called. -/
def consult (host : Host σ) (call : Invocation) (world : World σ) :
    Except RuntimeError Reply × World σ :=
  match call.definition.body with
  | .script _ => (.ok { answer := .ready .null }, world)
  | .builtin builtin => routine builtin call world
  | .importer => importModule host call world
  | .host id => host.call id call world

end Library

/-- The native that an action calls: the machine that is to be given the answer, and the call. -/
def Action.native? (heap : Heap) : Action → Option (Machine × Invocation)
  | .call next (.function closure) args receiver _ =>
      let definition := heap.definition closure.definition
      match definition.body, bindArguments definition args receiver with
      | .script _, _ => none
      | _, .ok bound => some (next, { definition, args := bound, scope := next.frame.scope })
      | _, .error _ => none
  | _ => none

namespace Machine

variable {host : Host σ} {world : World σ} {machine next : Machine} {call : Invocation}

/-- The machine at its next instruction: functions whose code has run out have been left. -/
def poised (machine : Machine) (world : World σ) : Machine :=
  ({ machine with status := .running }.settle world).machine

/-- What the next instruction of a running machine is about to do. -/
def action? (machine : Machine) (world : World σ) : Option Action :=
  match machine.frame.code.instrs[machine.position]? with
  | some instr => (plan world machine.begun machine.position instr).toOption
  | none => none

/-- The native that the next step of a machine calls: the machine that is to be given the answer,
and the call. -/
def native? (machine : Machine) (world : World σ) : Option (Machine × Invocation) :=
  match machine.status with
  | .ready | .running =>
      if (machine.poised world).status = .running then
        ((machine.poised world).action? world).bind (Action.native? world.heap)
      else none
  | _ => none

theorem native?_of_awake (awake : machine.status = .ready ∨ machine.status = .running)
    (world : World σ) :
    machine.native? world =
      if (machine.poised world).status = .running then
        ((machine.poised world).action? world).bind (Action.native? world.heap)
      else none := by
  unfold native?
  rcases awake with status | status
  · rw [status]
  · rw [status]

theorem native?_of_action {action : Action} {heap : Heap}
    (calls : action.native? heap = some (next, call)) :
    ∃ closure args receiver owner, action = .call next (.function closure) args receiver owner ∧
      call.definition = heap.definition closure.definition ∧
      (∀ code, call.definition.body ≠ .script code) ∧
      bindArguments call.definition args receiver = .ok call.args ∧
      call.scope = next.frame.scope := by
  unfold Action.native? at calls
  split at calls
  · rename_i next closure args receiver owner
    dsimp only at calls
    split at calls
    · cases calls
    · rename_i bound binds native
      cases calls
      exact ⟨closure, args, receiver, owner, rfl, rfl, native, binds, rfl⟩
    · cases calls
  · cases calls

/-- An action has been planned by the next instruction. -/
theorem action?_eq_some {action : Action} (acts : machine.action? world = some action) :
    ∃ instr, machine.frame.code.instrs[machine.position]? = some instr ∧
      plan world machine.begun machine.position instr = .ok action := by
  unfold action? at acts
  split at acts
  · rename_i instr fetched
    refine ⟨instr, fetched, ?_⟩
    cases planned : plan world machine.begun machine.position instr
    · rw [planned] at acts
      cases acts
    · rw [planned] at acts
      cases acts
      rfl
  · cases acts

/-- A function that is no script is called as a native. -/
theorem native?_of_binds {heap : Heap} {closure : Closure} {args bound : List Value}
    {receiver : Option Value} {owner : Option MapRef}
    (foreign : ∀ code, (heap.definition closure.definition).body ≠ .script code)
    (binds : bindArguments (heap.definition closure.definition) args receiver = .ok bound) :
    (Action.call next (.function closure) args receiver owner).native? heap =
      some (next, ⟨heap.definition closure.definition, bound, next.frame.scope⟩) := by
  simp only [Action.native?, binds]

/-- The instruction that calls a native. -/
theorem native?_eq_some (calls : machine.native? world = some (next, call)) :
    (machine.status = .ready ∨ machine.status = .running) ∧
      (machine.poised world).status = .running ∧
      ∃ instr action, (machine.poised world).frame.code.instrs[(machine.poised world).position]? =
          some instr ∧
        plan world (machine.poised world).begun (machine.poised world).position instr =
          .ok action ∧ action.native? world.heap = some (next, call) := by
  have planned (calls : (if (machine.poised world).status = .running then
      ((machine.poised world).action? world).bind (Action.native? world.heap) else none) =
        some (next, call)) :
      (machine.poised world).status = .running ∧
      ∃ instr action, (machine.poised world).frame.code.instrs[(machine.poised world).position]? =
          some instr ∧
        plan world (machine.poised world).begun (machine.poised world).position instr =
          .ok action ∧ action.native? world.heap = some (next, call) := by
    split at calls
    · rename_i running
      obtain ⟨action, acts, native⟩ := Option.bind_eq_some_iff.mp calls
      obtain ⟨instr, fetched, planned⟩ := action?_eq_some acts
      exact ⟨running, instr, action, fetched, planned, native⟩
    · cases calls
  unfold native? at calls
  split at calls
  · rename_i ready
    exact ⟨Or.inl ready, planned calls⟩
  · rename_i running
    exact ⟨Or.inr running, planned calls⟩
  · cases calls

theorem invoke_of_native (machine : Machine) {definition : Definition}
    (native : ∀ code, definition.body ≠ .script code) (outer : Option ScopeRef)
    (bound : List Value) (receiver : Option Value) (owner : Option MapRef) (world : World σ) :
    machine.invoke host definition outer bound receiver owner world =
      machine.receiveOutcome (Library.consult host
        { definition, args := bound, scope := machine.frame.scope } world) := by
  obtain ⟨name, params, body⟩ := definition
  cases body with
  | script code => exact absurd rfl (native code)
  | builtin builtin =>
      simp only [invoke, Library.consult, Library.routine_eq]
      cases Library.effect world builtin _ with
      | ok effect => rfl
      | error fault => rfl
  | importer => rfl
  | host id => rfl

/-- The step of a machine that calls a native, whatever the native answers. -/
theorem step_of_native (calls : machine.native? world = some (next, call)) (host : Host σ)
    (poll : Poller σ) :
    machine.step host poll world =
      match next.receiveOutcome (Library.consult host call (world.pass 1000)) with
      | (.ok next, world) =>
          if next.status = .running then next.settle world else { machine := next, world }
      | (.error error, after) =>
          (machine.poised world).begun.abort after (error.locate (machine.poised world).frame.code
            (machine.poised world).position) := by
  obtain ⟨awake, running, instr, action, fetched, planned, acts⟩ := native?_eq_some calls
  obtain ⟨closure, args, receiver, owner, rfl, definition, native, binds, scope⟩ :=
    native?_of_action acts
  have stepped : machine.step host poll world = (machine.poised world).advance host world := by
    have again : ({ machine with status := .running }.settle world).machine.status = .running :=
      running
    have still := settle_world_of_running again
    rcases awake with status | status
    · simp only [step, status, again, if_true, still]
      rfl
    · simp only [step, status, again, if_true, still]
      rfl
  have executed : (machine.poised world).begun.execute host (machine.poised world).position instr
      (world.pass 1000) = next.receiveOutcome (Library.consult host call (world.pass 1000)) := by
    have again : plan (world.pass 1000) (machine.poised world).begun
        (machine.poised world).position instr =
          .ok (.call next (.function closure) args receiver owner) := planned
    have same : (world.pass 1000).heap.definition closure.definition = call.definition :=
      definition.symm
    obtain ⟨known, bound, _⟩ := call
    simp only at same binds scope native
    subst scope
    simp only [execute_eq, again, perform, Machine.call, same, binds]
    exact invoke_of_native next native closure.outer bound receiver owner _
  rw [stepped, advance_eq]
  rw [position] at fetched executed
  rw [fetched]
  dsimp only
  rw [executed]
  rfl

/-- The operands are taken from the stack; nothing else happens to the machine before the call. -/
theorem native?_sameFrames (calls : machine.native? world = some (next, call)) :
    (machine.poised world).begun.SameFrames next := by
  obtain ⟨_, _, instr, action, _, planned, acts⟩ := native?_eq_some calls
  obtain ⟨closure, args, receiver, owner, rfl, _⟩ := native?_of_action acts
  exact (plan_continues _ _ _ _ _ planned).called rfl

/-- Who calls waits for nothing. -/
theorem native?_free (free : machine.wait? = none)
    (calls : machine.native? world = some (next, call)) :
    (machine.poised world).wait? = none ∧ next.wait? = none := by
  have poised : (machine.poised world).wait? = none :=
    @settle_free σ { machine with status := .running } free world
  exact ⟨poised, (native?_sameFrames calls).wait.trans poised⟩

theorem native?_status (calls : machine.native? world = some (next, call)) :
    next.status = .running := by
  have same := native?_sameFrames calls
  obtain ⟨_, running, _⟩ := native?_eq_some calls
  exact same.status.trans running

/-- The machine that is to be given the answer points behind the call. -/
theorem native?_place (calls : machine.native? world = some (next, call)) :
    next.frame.code = (machine.poised world).frame.code ∧
      next.position - 1 = (machine.poised world).position := by
  have same := (native?_sameFrames calls).frame
  constructor
  · rw [same]
    rfl
  · rw [position, same]
    rfl

/-- The machine that has called a native goes on with the answer. -/
def given (machine : Machine) (delivery : Delivery) (world : World σ) : Turn σ :=
  match delivery with
  | .ok value => ({ machine with status := .running, wait? := none }.push value).settle world
  | .error error =>
      { machine with wait? := none }.abort world
        ((ScriptError.runtime error).locate machine.frame.code (machine.position - 1))

theorem given_world (machine : Machine) (delivery : Delivery) (world : World σ) :
    (machine.given delivery world).world = world := by
  cases delivery with
  | ok value => exact settle_world rfl world
  | error error => exact congrArg Turn.world (abort_of_no_wait rfl world _)

end Machine

namespace Machine

variable {machine again third : Machine}

theorem Disciplined.awake (disciplined : machine.Disciplined)
    (wait : machine.wait? = none) (unfinished : machine.isFinished = false) : machine.Awake := by
  have active : machine.status ≠ .finished := of_decide_eq_false unfinished
  have operands : machine.operands = machine.stack.length := by
    rw [Machine.operands, wait]
  refine ⟨disciplined.coherent.going wait, wait, fun ended => absurd ended active, fun isDone => ?_⟩
  obtain ⟨callers, none⟩ := (disciplined.stacked active).done isDone
  exact ⟨callers, List.length_eq_zero_iff.mp (operands.symm.trans none)⟩

theorem SamePoint.symm (point : machine.SamePoint again) : again.SamePoint machine :=
  ⟨point.frame.symm, point.callers.symm, point.stack.symm, point.status.symm, point.wait.symm⟩

theorem SamePoint.trans (point : machine.SamePoint again) (further : again.SamePoint third) :
    machine.SamePoint third :=
  ⟨point.frame.trans further.frame, point.callers.trans further.callers,
    point.stack.trans further.stack, point.status.trans further.status,
    point.wait.trans further.wait⟩

theorem SamePoint.samePlace (point : machine.SamePoint again) : machine.SamePlace again :=
  ⟨point.frame.symm, point.callers.symm, point.stack.symm⟩

theorem SamePoint.depth (point : machine.SamePoint again) : machine.depth = again.depth :=
  congrArg List.length point.callers

theorem SamePoint.line? (point : machine.SamePoint again) : machine.line? = again.line? := by
  rw [Machine.line?, entry?, position, point.frame]
  rfl

theorem SamePoint.awake (point : machine.SamePoint again) (awake : again.Awake) :
    machine.Awake where
  awake := by
    rw [point.status]
    exact awake.awake
  wait := point.wait.trans awake.wait
  finished ended := by
    rw [point.frame]
    exact awake.finished (point.status ▸ ended)
  done isDone := by
    rw [point.callers, point.stack]
    exact awake.done (point.frame ▸ isDone)

end Machine

/-- Two turns have come to the same point with the same error. -/
structure Turn.Meets (turn other : Turn σ) : Prop where
  point : turn.machine.SamePoint other.machine
  error : turn.error = other.error

namespace Turn.Meets

variable {turn other third : Turn σ}

theorem symm (meets : turn.Meets other) : other.Meets turn :=
  ⟨meets.point.symm, meets.error.symm⟩

theorem trans (meets : turn.Meets other) (further : other.Meets third) : turn.Meets third :=
  ⟨meets.point.trans further.point, meets.error.trans further.error⟩

theorem goesOn (meets : turn.Meets other) (goesOn : Machine.GoesOn other) :
    Machine.GoesOn turn where
  awake := meets.point.awake goesOn.awake
  ended failed := meets.point.status.trans (goesOn.ended (meets.error ▸ failed))

end Turn.Meets

namespace Machine

variable {host : Host σ} {world after : World σ} {machine next again : Machine}
variable {call : Invocation} {delivery : Delivery}

theorem SamePoint.settle_meets (point : machine.SamePoint again) (world after : World σ) :
    (machine.settle world).Meets (again.settle after) :=
  ⟨point.settle.1, point.settle.2⟩

/-- Where a machine goes on to depends on its place and on the answer. -/
theorem given_meets (same : next.SamePlace again) (delivery : Delivery) :
    (next.given delivery world).Meets (again.given delivery after) := by
  cases delivery with
  | ok value =>
      have point : SamePoint ({ next with status := .running, wait? := none }.push value)
          ({ again with status := .running, wait? := none }.push value) :=
        ⟨same.frame.symm, same.callers.symm, congrArg (value :: ·) same.stack.symm, rfl, rfl⟩
      exact point.settle_meets _ _
  | error error =>
      refine ⟨⟨?_, rfl, rfl, rfl, rfl⟩, ?_⟩
      · simp only [given, abort, halt, halted, outermost, same.frame, same.callers]
      · simp only [given, abort, position, same.frame]

theorem given_goesOn (machine : Machine) (delivery : Delivery) (world : World σ) :
    GoesOn (machine.given delivery world) := by
  cases delivery with
  | ok value => exact ⟨settle_awake rfl rfl world, settle_ended _ world⟩
  | error error => exact ⟨halted_awake _, fun _ => rfl⟩

end Machine

/-- The answer of a native, if it does not come later. -/
def Reply.delivery? : Except RuntimeError Reply → Option Delivery
  | .ok ⟨.ready value, _⟩ => some (.ok value)
  | .ok ⟨.pending _, _⟩ => none
  | .error error => some (.error error)

namespace Machine

variable {host : Host σ} {world after : World σ} {machine next again : Machine}
variable {call : Invocation} {delivery : Delivery} {poll : Poller σ}

theorem settle_lastCallNative (machine : Machine) (world : World σ) :
    (machine.settle world).machine.lastCallNative = machine.lastCallNative := by
  unfold settle
  dsimp only
  split
  · split
    · rfl
    · rfl
  · rfl

/-- A native that answers at once. -/
theorem step_answered (free : machine.wait? = none)
    (calls : machine.native? world = some (next, call))
    {outcome : Except RuntimeError Reply}
    (consulted : Library.consult host call (world.pass 1000) = (outcome, after))
    (delivered : Reply.delivery? outcome = some delivery) :
    (machine.step host poll world).Meets (next.given delivery after) ∧
      (machine.step host poll world).world = after ∧
      ((machine.step host poll world).error = none →
        (machine.step host poll world).machine.lastCallNative = true) := by
  obtain ⟨code, place⟩ := native?_place calls
  rw [step_of_native calls host poll, consulted]
  have running := native?_status calls
  obtain ⟨poised, later⟩ := native?_free free calls
  unfold Reply.delivery? at delivered
  split at delivered
  · rename_i value yields
    cases delivered
    have stays : ({ next with yieldRequested := yields, lastCallNative := true }.push
      value).status = .running := running
    simp only [receiveOutcome, receive, if_pos stays]
    have pushed : ({ next with yieldRequested := yields, lastCallNative := true }.push
      value).wait? = none := later
    refine ⟨?_, settle_world pushed _, ?_⟩
    · have point : SamePoint
          ({ next with yieldRequested := yields, lastCallNative := true }.push value)
          ({ next with status := .running, wait? := none }.push value) :=
        ⟨rfl, rfl, rfl, running, later⟩
      exact point.settle_meets _ _
    · exact fun _ => settle_lastCallNative _ _
  · cases delivered
  · rename_i error
    cases delivered
    have same := native?_sameFrames calls
    have begun : (machine.poised world).begun.wait? = none := poised
    simp only [receiveOutcome, abort_of_no_wait begun]
    have left : ({ next with wait? := none } : Machine).wait? = none := rfl
    simp only [given, abort_of_no_wait left]
    refine ⟨⟨⟨?_, rfl, rfl, rfl, rfl⟩, ?_⟩, trivial, nofun⟩
    · simp only [halted, outermost, same.frame, same.callers]
    · simp only [position] at place
      simp only [position, code, place]

/-- A native that answers later: the machine waits. -/
theorem step_asked (calls : machine.native? world = some (next, call)) {ref : DeferredRef}
    {yields : Bool}
    (consulted : Library.consult host call (world.pass 1000) =
      (.ok ⟨.pending ref, yields⟩, after)) :
    (machine.step host poll world).machine = next.parked yields ⟨ref, after.suspensions⟩ ∧
      (machine.step host poll world).error = none := by
  rw [step_of_native calls host poll, consulted]
  exact ⟨rfl, rfl⟩

/-- A wait that goes on. -/
theorem step_waits {wait : Wait} (waits : machine.WaitsFor wait)
    (untold : (attend poll wait world).isWoken wait = false) :
    machine.step host poll world = { machine, world := attend poll wait world } := by
  simp only [step, waits.status, resume, waits.wait, untold, Bool.false_eq_true, if_false]
  exact if_neg (waits.not_goesOn _)

/-- The answer has come. -/
theorem step_told {wait : Wait} (waits : machine.WaitsFor wait)
    (woken : (attend poll wait world).isWoken wait = true)
    (delivered : ((attend poll wait world).deferred wait.deferred).result = some delivery) :
    machine.step host poll world =
      machine.given delivery ((attend poll wait world).modifyDeferred wait.deferred .take) := by
  simp only [step, waits.status, resume, waits.wait, woken, if_true, awaken, delivered]
  cases delivery with
  | ok value => exact if_pos rfl
  | error error => exact if_neg (not_goesOn_of_error (Option.some_ne_none _))

/-- An action that calls no native neither begins a wait nor notes a native. -/
theorem perform_plain {action : Action} (plain : action.native? world.heap = none) :
    Ensures (fun result => result.status = action.next.status ∧
        result.wait? = action.next.wait? ∧ result.lastCallNative = action.next.lastCallNative)
      (perform host action world).1 := by
  cases action with
  | proceed next => exact .ok ⟨rfl, rfl, rfl⟩
  | produce next draft => exact .ok ⟨rfl, rfl, rfl⟩
  | store next map key draft =>
      unfold perform
      dsimp only
      split
      · exact .ok ⟨rfl, rfl, rfl⟩
      · exact .error _
  | replaceItem next list index value => exact .ok ⟨rfl, rfl, rfl⟩
  | call next callee args receiver owner =>
      unfold perform Machine.call
      dsimp only
      split
      · rename_i closure
        split
        · rename_i bound binds
          simp only [Action.native?, binds] at plain
          unfold invoke
          dsimp only
          cases body : (world.heap.definition closure.definition).body with
          | script code =>
              dsimp only
              unfold enter
              split
              · exact .error _
              · exact .ok ⟨rfl, rfl, rfl⟩
          | _ =>
              rw [body] at plain
              cases plain
        · exact .error _
      · split
        · exact .ok ⟨rfl, rfl, rfl⟩
        · exact .error _

theorem pop_lastCallNative (machine : Machine) :
    Ensures (fun popped => popped.2.lastCallNative = machine.lastCallNative) machine.pop := by
  unfold pop pop?
  cases machine.stack with
  | nil => exact .error _
  | cons value stack => exact .ok rfl

theorem popMany_lastCallNative (machine : Machine) (count : Nat) :
    Ensures (fun popped => popped.2.lastCallNative = machine.lastCallNative)
      (machine.popMany count) := by
  unfold popMany popMany?
  split
  · rename_i same
    split at same
    · cases same
    · cases same
      exact .ok rfl
  · exact .error _

/-- An instruction for calls notes nothing before the call. -/
theorem plan_lastCallNative {instr : Instr} (isCall : instr.op.isCall = true) (world : World σ)
    (machine : Machine) (position : Nat) :
    Ensures (fun action => action.next.lastCallNative = machine.lastCallNative)
      (plan world machine position instr) := by
  obtain ⟨op, first, second⟩ := instr
  cases op with
  | callVar =>
      refine .skip fun name => .skip fun count => (popMany_lastCallNative machine count).bind ?_
      intro popped same
      exact .skip fun callee => .ok same
  | callIndex =>
      refine .skip fun count => (popMany_lastCallNative machine count).bind fun args first => ?_
      refine (pop_lastCallNative args.2).bind fun keyed second => ?_
      refine (pop_lastCallNative keyed.2).bind fun popped third => ?_
      exact .skip fun member => .ok (third.trans (second.trans first))
  | callSuper =>
      refine .skip fun count => (popMany_lastCallNative machine count).bind fun args first => ?_
      refine (pop_lastCallNative args.2).bind fun popped second => ?_
      exact .skip fun member => .ok (second.trans first)
  | callValue =>
      refine .skip fun count => (popMany_lastCallNative machine count).bind fun args first => ?_
      refine (pop_lastCallNative args.2).bind fun popped second => ?_
      exact .ok (second.trans first)
  | _ => cases isCall

/-- Where there is code left, a machine that does not wait is at its next instruction. -/
theorem poised_of_not_done (unfinished : machine.frame.isDone = false) (world : World σ) :
    machine.poised world = { machine with status := .running } := by
  have settled : { machine with status := .running }.settle world =
      { machine := { machine with status := .running }, world } :=
    @settle_of_not_done σ { machine with status := .running } unfinished world
  rw [poised, settled]

/-- A native is called by an instruction for calls. -/
theorem native?_opcode (awake : machine.Awake) (calls : machine.native? world = some (next, call)) :
    machine.nextOpcode?.any Opcode.isCall = true := by
  obtain ⟨_, running, instr, action, fetched, planned, acts⟩ := native?_eq_some calls
  obtain ⟨closure, args, receiver, owner, rfl, _⟩ := native?_of_action acts
  have isCall := plan_calls _ _ _ _ _ planned rfl
  cases isDone : machine.frame.isDone with
  | true =>
      obtain ⟨callers, stack⟩ := awake.done isDone
      have ended : (machine.poised world).status = .finished := by
        simp only [poised, settle, callers, stack, unwind, isDone, if_true, List.isEmpty_nil]
      cases ended.symm.trans running
  | false =>
      rw [poised_of_not_done isDone] at fetched
      rw [nextOpcode?, Code.opcodeAt?, position]
      rw [position] at fetched
      rw [fetched]
      exact isCall

/-- An instruction of a machine that calls no native. -/
theorem native?_of_plain (awake : machine.Awake) (unfinished : machine.frame.isDone = false)
    (plain : machine.native? world = none) {instr : Instr} {action : Action}
    (fetched : machine.frame.code.instrs[machine.position]? = some instr)
    (planned : plan world machine.executing machine.position instr = .ok action) :
    action.native? world.heap = none := by
  have acts : ((machine.poised world).action? world).bind (Action.native? world.heap) =
      action.native? world.heap := by
    have found : (machine.poised world).frame.code.instrs[(machine.poised world).position]? =
        some instr := by
      rw [poised_of_not_done unfinished]
      exact fetched
    have again : plan world (machine.poised world).begun (machine.poised world).position instr =
        .ok action := by
      rw [poised_of_not_done unfinished, executing_of_free awake.wait]
      exact planned
    rw [action?, found]
    dsimp only
    rw [again]
    rfl
  have running : (machine.poised world).status = .running := by
    rw [poised_of_not_done unfinished]
  rwa [native?_of_awake (awake.active unfinished), if_pos running, acts] at plain

/-- A step that calls no native leaves a machine that does not wait and that notes no native, if it
was an instruction for calls. -/
theorem step_plain (awake : machine.Awake) (plain : machine.native? world = none) :
    GoesOn (machine.step host poll world) ∧
      (machine.nextOpcode?.any Opcode.isCall = true →
        (machine.step host poll world).machine.lastCallNative = false) := by
  cases isDone : machine.frame.isDone with
  | true =>
      have beyond : machine.frame.code.instrs[machine.position]? = none :=
        Array.getElem?_eq_none (of_decide_eq_true isDone)
      rw [awake.step_of_done isDone]
      refine ⟨⟨⟨nofun, awake.wait, fun _ => isDone, awake.done⟩,
        fun failed => absurd rfl failed⟩, ?_⟩
      intro isCall
      rw [nextOpcode?, Code.opcodeAt?, beyond] at isCall
      cases isCall
  | false =>
      have free : machine.executing.wait? = none := rfl
      rw [awake.step_of_not_done isDone, advance_eq]
      dsimp only
      rw [executing_of_free awake.wait]
      simp only [abort_of_no_wait free]
      split
      · refine ⟨⟨halted_awake _, fun _ => rfl⟩, fun _ => rfl⟩
      · rename_i instr fetched
        have executed : Ensures (fun result => result.status = .running ∧
            result.wait? = none ∧ (instr.op.isCall = true → result.lastCallNative = false))
            (machine.executing.execute host machine.position instr (world.pass 1000)).1 := by
          rw [execute_eq]
          cases planned : plan (world.pass 1000) machine.executing machine.position instr with
          | error error => exact .error error
          | ok action =>
              have calls : action.native? (world.pass 1000).heap = none :=
                native?_of_plain awake isDone plain fetched planned
              intro result same
              obtain ⟨status, wait, flag⟩ := perform_plain calls result same
              have kept := (plan_continues _ _ _ _ _ planned).kept
              refine ⟨status.trans kept.status, wait.trans kept.wait, fun isCall =>
                flag.trans ?_⟩
              exact plan_lastCallNative isCall _ _ _ _ planned
        have opcode (isCall : machine.nextOpcode?.any Opcode.isCall = true) :
            instr.op.isCall = true := by
          rw [nextOpcode?, Code.opcodeAt?, position, fetched] at isCall
          exact isCall
        split
        · rename_i result after same
          obtain ⟨running, wait, flag⟩ := executed result (congrArg Prod.fst same)
          rw [if_pos running]
          refine ⟨⟨settle_awake running wait after, settle_ended result after⟩, fun isCall => ?_⟩
          rw [settle_lastCallNative]
          exact flag (opcode isCall)
        · exact ⟨⟨halted_awake _, fun _ => rfl⟩, fun _ => rfl⟩

end Machine

end MiniScript
