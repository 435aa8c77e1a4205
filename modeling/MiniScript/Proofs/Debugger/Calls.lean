import MiniScript.Proofs.Debugger.StopPoints
import MiniScript.Proofs.Machine.Returning
import MiniScript.Proofs.Machine.Standing

/-!
# Stepping into a call and out of it

A step saves one frame at most. So a command to step in that comes to a greater depth
has just executed a call, and is one frame deeper. From there a command to step out
goes on until the saved frame is on top again; nested calls, waits and polls in
between leave that frame and its operands as they are, and the step that ends the
command is the `return` of the function that was entered.
-/

namespace MiniScript

namespace Machine

variable {σ : Type} {host : Host σ} {world after : World σ} {machine next : Machine}
variable {instr : Instr} {poll : Poller σ} {saved : Frame} {outer : List Frame} {kept : List Value}

/-- The machine `caller` executes `call` and enters a function with it; `callee` stands at the
beginning of that function, and the frame of the caller is saved, behind the call. -/
structure CallsInto (host : Host σ) (caller : Machine) (world : World σ) (call : Instr)
    (callee : Machine) : Prop where
  executes : ∃ after, { caller with status := .running }.Executes host world call callee after
  isCall : call.op.isCall = true
  callers : callee.callers = caller.begun.frame :: caller.callers
  inside : Inside caller.begun.frame caller.callers (caller.stack.drop call.taken) callee

/-- The machine `callee` returns: it executes the `return` of the function that was entered from
the frame `saved`, and what that takes is the result, on top of the operands that were kept. -/
structure ReturnsTo (host : Host σ) (saved : Frame) (outer : List Frame) (kept : List Value)
    (callee : Machine) (world : World σ) (next : Machine) : Prop where
  executes : ∃ instr after, callee.Executes host world instr next after ∧ instr.op = .return
  callers : callee.callers = saved :: outer
  back : BackAt saved outer kept next
  result : next.stack = callee.stack

theorem CallsInto.depth_eq {call : Instr} (calls : CallsInto host machine world call next) :
    next.depth = machine.depth + 1 :=
  congrArg List.length calls.callers

theorem CallsInto.running {call : Instr} (calls : CallsInto host machine world call next) :
    next.status = .running := by
  obtain ⟨after, executes⟩ := calls.executes
  have deeper : ({ machine with status := .running } : Machine).depth < next.depth :=
    Nat.lt_of_succ_le (Nat.le_of_eq calls.depth_eq.symm)
  exact (execute_enters executes.executed deeper).2.2.1

/-- Only a call makes the depth greater. -/
theorem Executes.isCall (executes : machine.Executes host world instr next after)
    (deeper : machine.depth < next.depth) : instr.op.isCall = true := by
  obtain ⟨action, planned, performed⟩ := execute_eq_ok executes.executed
  have shallow : action.next.depth ≤ machine.depth :=
    (plan_continues _ _ _ _ action planned).kept.depth_le
  rcases perform_ok performed with ⟨stack, rfl⟩ | ⟨isCall, _⟩
  · exact absurd deeper (Nat.not_lt_of_le shallow)
  · exact plan_calls _ _ _ _ action planned isCall

theorem Executes.callsInto (executes : { machine with status := .running }.Executes host world instr
    next after) (deeper : machine.depth < next.depth) (compiled : world.Compiled) :
    CallsInto host machine world instr next where
  executes := ⟨after, executes⟩
  isCall := executes.isCall deeper
  callers := (execute_enters executes.executed deeper).1
  inside := by
    have enters : { machine with status := .running }.Enters host world next.frame.code :=
      ⟨instr, next, after, executes, deeper, rfl⟩
    exact executes.inside deeper (enters.isBody compiled)

/-- A `return` takes its operand along to the caller. -/
theorem Executes.returned (executes : machine.Executes host world instr next after)
    (isReturn : instr.op = .return) (inner : machine.callers ≠ []) :
    machine.callers = next.frame :: next.callers ∧ next.stack = machine.stack := by
  obtain ⟨action, planned, performed⟩ := execute_eq_ok executes.executed
  obtain ⟨op, first, second⟩ := instr
  obtain ⟨frame, callers, stack, status, yields, native⟩ := machine
  obtain rfl : op = .return := isReturn
  cases callers with
  | nil => exact absurd rfl inner
  | cons caller callers =>
      cases stack with
      | nil => cases planned
      | cons value stack =>
          cases planned
          cases performed
          exact ⟨rfl, rfl⟩

theorem awaken_depth_le (machine : Machine) (ref : DeferredRef) (world : World σ) :
    (machine.awaken ref world).machine.depth ≤ machine.depth := by
  unfold awaken
  dsimp only
  split
  · exact Nat.le_refl _
  · exact Nat.zero_le _
  · exact Nat.zero_le _

theorem resume_depth_le (poll : Poller σ) (machine : Machine) (world : World σ) :
    (machine.resume poll world).machine.depth ≤ machine.depth := by
  unfold resume
  split
  · exact Nat.le_refl _
  · dsimp only
    split
    · exact awaken_depth_le machine _ _
    · exact Nat.le_refl _

/-- An instruction that makes the depth greater has entered a function. -/
theorem advance_callsInto (free : machine.wait? = none) (compiled : world.Compiled)
    (deeper : machine.depth <
      ({ machine with status := .running }.advance host world).machine.depth) :
    ∃ call, CallsInto host machine world call
      ({ machine with status := .running }.advance host world).machine := by
  rw [advance_eq] at deeper ⊢
  dsimp only at deeper ⊢
  split at deeper
  · exact absurd deeper (Nat.not_lt_zero _)
  · rename_i instr found
    split at deeper
    · rename_i next after executed
      have executes : { machine with status := .running }.Executes host world instr next after :=
        ⟨rfl, free, found, executed⟩
      have entered : machine.depth < next.depth := by
        split at deeper
        · exact Nat.lt_of_lt_of_le deeper (settle_depth_le next after)
        · exact deeper
      have calls := executes.callsInto entered compiled
      rw [calls.inside.settle, ite_self]
      exact ⟨instr, calls⟩
    · exact absurd deeper (Nat.not_lt_zero _)

/-- A step that makes the depth greater has entered a function. -/
theorem step_callsInto (disciplined : machine.Disciplined) (compiled : world.Compiled)
    (deeper : machine.depth < (machine.step host poll world).machine.depth) :
    ∃ call, CallsInto host machine world call (machine.step host poll world).machine := by
  cases waiting : machine.wait? with
  | some wait =>
      rw [step, (disciplined.coherent.waitsFor waiting).status] at deeper
      dsimp only at deeper
      have shallow := resume_depth_le poll machine world
      split at deeper
      · have settled := settle_depth_le (machine.resume poll world).machine
          (machine.resume poll world).world
        omega
      · omega
  | none =>
      cases ended : machine.isFinished with
      | true =>
          rw [step_finished host poll (of_decide_eq_true ended)] at deeper
          exact absurd deeper (Nat.lt_irrefl _)
      | false =>
          have awake := disciplined.awake waiting ended
          cases isDone : machine.frame.isDone with
          | true =>
              rw [awake.step_of_done isDone] at deeper
              exact absurd deeper (Nat.lt_irrefl _)
          | false =>
              rw [awake.step_of_not_done isDone] at deeper ⊢
              exact advance_callsInto waiting compiled deeper

/-- The frame of a caller has not run out of code. -/
theorem Disciplined.caller_not_done (disciplined : machine.Disciplined)
    (unfinished : machine.status ≠ .finished) (callers : machine.callers = saved :: outer) :
    saved.isDone = false := by
  obtain ⟨_, _, _, _, _, back⟩ := (disciplined.stacked unfinished).top
  cases isDone : saved.isDone with
  | false => rfl
  | true => exact nomatch ((back callers).done isDone).2

end Machine

variable {σ : Type} {host : Host σ} {meanwhile : Machine → World σ → World σ → Prop}
variable {debugger : Debugger} {world : World σ} {command : StepCommand} {turn : DebugTurn σ}
variable {steps : List (Machine × World σ)} {holds : Debugger → World σ → Prop}
variable {stops : Machine → World σ → Machine → Prop}

/-- As long as the command is in force, `holds`; where it pauses, `stops` is true of the last of its
steps. -/
structure DebugTurn.Kept (holds : Debugger → World σ → Prop)
    (stops : Machine → World σ → Machine → Prop) (steps : List (Machine × World σ))
    (turn : DebugTurn σ) : Prop where
  goesOn : turn.isOpen = true → holds turn.debugger turn.world
  pauses : turn.result = .ok .paused →
    ∃ front machine world, steps = front ++ [(machine, world)] ∧
      stops machine world turn.debugger.machine

/-- What a command in force keeps from step to step, whatever happens in between. -/
structure Guides (host : Host σ) (meanwhile : Machine → World σ → World σ → Prop)
    (holds : Debugger → World σ → Prop) (stops : Machine → World σ → Machine → Prop) : Prop where
  unfinished : ∀ {debugger world}, holds debugger world → debugger.machine.isFinished = false
  mode : ∀ {debugger world}, holds debugger world → debugger.mode.isSome = true
  changes : ∀ {debugger before after}, meanwhile debugger.machine before after →
    holds debugger before → holds debugger after
  step : ∀ {debugger world}, holds debugger world →
    (debugger.advance host 1 world).Kept holds stops [(debugger.machine, world)]

namespace DebugTurn.Kept

theorem after (kept : turn.Kept holds stops steps) (earlier : List (Machine × World σ)) :
    turn.Kept holds stops (earlier ++ steps) where
  goesOn := kept.goesOn
  pauses paused := by
    obtain ⟨front, machine, world, rfl, stopped⟩ := kept.pauses paused
    exact ⟨earlier ++ front, machine, world, (List.append_assoc ..).symm, stopped⟩

theorem ofEnded {result : Except ScriptError StepStatus}
    (ended : result = .ok .finished ∨ ∃ error, result = .error error) :
    (debugger.reportEnd host world result).Kept holds stops steps := by
  have same := debugger.reportEnd_result host world result
  refine ⟨fun isOpen => ?_, fun paused => ?_⟩
  · rw [DebugTurn.isOpen, same] at isOpen
    rcases ended with rfl | ⟨error, rfl⟩
    · cases isOpen
    · cases isOpen
  · rw [same] at paused
    rcases ended with rfl | ⟨error, rfl⟩
    · cases paused
    · cases paused

/-- One step of a command. An error or the end of the program ends the command too. -/
theorem ofConclude {mode : StepMode} {resuming executesCall : Bool} {machine : Machine}
    {stepped : Turn σ} (coherent : stepped.machine.Coherent)
    (asleep : stepped.error = none → stepped.machine.status = .suspended →
      holds { debugger with
        machine := stepped.machine
        mode := some (Debugger.afterSuspension stepped.machine resuming mode) } stepped.world)
    (goesOn : stepped.error = none → stepped.machine.isFinished = false →
      Debugger.isReached stepped.machine mode resuming executesCall = false →
      holds { debugger with machine := stepped.machine } stepped.world)
    (reached : stepped.error = none → stepped.machine.isFinished = false →
      Debugger.isReached stepped.machine mode resuming executesCall = true →
      stops machine world stepped.machine) :
    (debugger.conclude host mode resuming executesCall stepped).Kept holds stops
      [(machine, world)] := by
  cases stepped.outcome coherent with
  | failed failed =>
      rw [Debugger.conclude_failed failed]
      exact .ofEnded (Or.inr ⟨_, rfl⟩)
  | ended fine finished =>
      rw [Debugger.conclude_finished fine finished]
      exact .ofEnded (Or.inl rfl)
  | asleep fine waits =>
      rw [Debugger.conclude_suspended fine waits.status]
      exact ⟨fun _ => asleep fine waits.status, nofun⟩
  | goesOn fine unfinished awake =>
      rw [Debugger.conclude_goesOn fine unfinished awake]
      cases met : Debugger.isReached stepped.machine mode resuming executesCall with
      | true => exact ⟨nofun, fun _ => ⟨[], _, _, rfl, reached fine unfinished met⟩⟩
      | false => exact ⟨fun _ => goesOn fine unfinished met, nofun⟩

end DebugTurn.Kept

namespace Guides

/-- Any number of steps. -/
theorem advance (guides : Guides host meanwhile holds stops) (budget : Nat)
    (before : holds debugger world) :
    (debugger.advance host budget world).Kept holds stops
      (debugger.moments host budget world) := by
  induction budget generalizing debugger world with
  | zero => exact ⟨fun _ => before, nofun⟩
  | succ budget ih =>
      have stepped := guides.step before
      rw [Debugger.advance_succ, moments_succ]
      split
      · rename_i running
        have isOpen : (debugger.advance host 1 world).isOpen = true := by
          rw [DebugTurn.isOpen, running]
        exact (ih (stepped.goesOn isOpen)).after [(debugger.machine, world)]
      · exact stepped

/-- A whole session: the command is given, and polled until it is done. -/
theorem session (guides : Guides host meanwhile holds stops)
    (begins : debugger.machine.isFinished = false → holds (debugger.armed command) world)
    (session : DebugSession host meanwhile debugger world command steps turn) :
    turn.Kept holds stops steps := by
  induction session with
  | issue =>
      cases ended : debugger.machine.isFinished with
      | true =>
          rw [Debugger.issue_of_finished ended]
          exact .ofEnded (Or.inl rfl)
      | false =>
          rw [Debugger.issue_of_unfinished ended, if_neg Bool.false_ne_true]
          exact guides.advance debugger.budget (begins ended)
  | @poll steps turn later before isOpen changed ih =>
      have now := guides.changes changed (ih.goesOn isOpen)
      obtain ⟨mode, given⟩ := Option.isSome_iff_exists.mp (guides.mode now)
      have polls : turn.debugger.poll host later =
          turn.debugger.advance host turn.debugger.budget later := by
        simp only [Debugger.poll, guides.unfinished now, Bool.false_eq_true, if_false, given]
      rw [polls]
      exact (guides.advance turn.debugger.budget now).after steps

end Guides

/-- A command to step in, given at that depth, is in force. If it waits for a greater depth, it has
not come there. -/
structure SteppingInto (depth : Nat) (debugger : Debugger) (world : World σ) : Prop where
  disciplined : debugger.machine.Disciplined
  unfinished : debugger.machine.isFinished = false
  compiled : world.Compiled
  mode : (∃ line, debugger.mode = some (.over depth line)) ∨
    debugger.machine.depth ≤ depth ∧ ∃ line native, debugger.mode = some (.into depth line native)

/-- The step comes to a greater depth only by a call, and from just that depth. -/
def EntersFrom (host : Host σ) (depth : Nat) (machine : Machine) (world : World σ)
    (next : Machine) : Prop :=
  depth < next.depth → machine.depth = depth ∧ next.Disciplined ∧
    ∃ call, Machine.CallsInto host machine world call next

theorem SteppingInto.step {depth : Nat} (keeps : host.KeepsCompiled)
    (before : SteppingInto depth debugger world) :
    (debugger.advance host 1 world).Kept (SteppingInto depth) (EntersFrom host depth)
      [(debugger.machine, world)] := by
  have served : debugger.machine.Served (debugger.machine.stepOnce host world) :=
    Machine.step_served before.disciplined (World.poll host) before.compiled
  have compiled : (debugger.machine.stepOnce host world).world.Compiled :=
    (Machine.becomes_step World.becomes_poll debugger.machine world).compiled keeps before.compiled
  have enters : debugger.machine.depth < (debugger.machine.stepOnce host world).machine.depth →
      ∃ call, Machine.CallsInto host debugger.machine world call
        (debugger.machine.stepOnce host world).machine :=
    Machine.step_callsInto before.disciplined before.compiled
  generalize same : debugger.machine.stepOnce host world = stepped at served compiled enters
  rcases before.mode with ⟨line, given⟩ | ⟨shallow, line, native, given⟩
  · rw [Debugger.advance_one given, same]
    refine .ofConclude served.machine.coherent (fun _ waits => ?_) (fun _ unfinished _ => ?_)
      fun _ _ reached => ?_
    · exact ⟨served.machine, by rw [Machine.isFinished, waits]; rfl, compiled, Or.inl ⟨line, rfl⟩⟩
    · exact ⟨served.machine, unfinished, compiled, Or.inl ⟨line, given⟩⟩
    · -- A command to go to the next line does not pause at a greater depth.
      intro deeper
      simp only [Debugger.isReached, Debugger.movedOn, Bool.and_eq_true, decide_eq_true_eq]
        at reached
      exact absurd deeper (Nat.not_lt_of_le reached.1.1)
  · rw [Debugger.advance_one given, same]
    refine .ofConclude served.machine.coherent (fun _ waits => ?_) (fun _ unfinished unmet => ?_)
      fun _ _ _ deeper => ?_
    · refine ⟨served.machine, by rw [Machine.isFinished, waits]; rfl, compiled,
        Or.inr ⟨Nat.le_of_not_lt fun deeper => ?_, line, _, rfl⟩⟩
      obtain ⟨call, calls⟩ := enters (Nat.lt_of_le_of_lt shallow deeper)
      cases waits.symm.trans calls.running
    · refine ⟨served.machine, unfinished, compiled,
        Or.inr ⟨Nat.le_of_not_lt fun deeper => ?_, line, native, given⟩⟩
      rw [Debugger.isReached, if_pos deeper] at unmet
      cases unmet
    · obtain ⟨call, calls⟩ := enters (Nat.lt_of_le_of_lt shallow deeper)
      have one := calls.depth_eq
      exact ⟨by omega, served.machine, call, calls⟩

theorem steppingInto_guides (keeps : host.KeepsCompiled) (depth : Nat) :
    Guides host (fun _ => World.StaysCompiled) (SteppingInto depth) (EntersFrom host depth) where
  unfinished before := before.unfinished
  mode before := by
    rcases before.mode with ⟨line, given⟩ | ⟨_, line, native, given⟩
    · rw [given]
      rfl
    · rw [given]
      rfl
  changes changed before :=
    ⟨before.disciplined, before.unfinished, changed before.compiled, before.mode⟩
  step before := before.step keeps

section

variable {saved : Frame} {outer : List Frame} {kept : List Value}

/-- A command to step out, given inside of a call from the frame `saved`, is in force. -/
structure SteppingOut (saved : Frame) (outer : List Frame) (kept : List Value)
    (debugger : Debugger) (world : World σ) : Prop where
  inside : Machine.Inside saved outer kept debugger.machine
  compiled : world.Compiled
  mode : debugger.mode = some (.out (outer.length + 1))

theorem Machine.Inside.isFinished {machine : Machine} (inside : Inside saved outer kept machine) :
    machine.isFinished = false := by
  rcases inside.active with status | status
  · rw [Machine.isFinished, status]
    rfl
  · rw [Machine.isFinished, status]
    rfl

theorem SteppingOut.step (keeps : host.KeepsCompiled) (goesOn : saved.isDone = false)
    (before : SteppingOut saved outer kept debugger world) :
    (debugger.advance host 1 world).Kept (SteppingOut saved outer kept)
      (Machine.ReturnsTo host saved outer kept) [(debugger.machine, world)] := by
  have compiled : (debugger.machine.stepOnce host world).world.Compiled :=
    (Machine.becomes_step World.becomes_poll debugger.machine world).compiled keeps before.compiled
  have steps : Machine.Steps host saved outer kept debugger.machine world
      (debugger.machine.stepOnce host world) :=
    before.inside.step (World.poll host) fun _ enters => enters.isBody before.compiled
  have coherent : (debugger.machine.stepOnce host world).machine.Coherent :=
    Machine.step_coherent _ before.inside.coherent world
  rw [Debugger.advance_one before.mode]
  generalize debugger.machine.stepOnce host world = stepped at compiled steps coherent
  cases steps with
  | fails failed =>
      exact .ofConclude coherent (fun fine => absurd fine failed.error)
        (fun fine => absurd fine failed.error) fun fine => absurd fine failed.error
  | stays inside =>
      refine .ofConclude coherent (fun _ _ => ⟨inside, compiled, rfl⟩)
        (fun _ _ _ => ⟨inside, compiled, before.mode⟩) fun _ _ reached => ?_
      have deep : outer.length + 1 ≤ stepped.machine.depth := inside.above.suffix.length_le
      exact absurd (of_decide_eq_true reached) (Nat.not_lt_of_le deep)
  | @returns instr next after executes isReturn back settles =>
      have unfinished : next.frame.isDone = false := by rw [back.frame, goesOn]
      obtain rfl := settles.trans (Machine.settle_of_not_done unfinished after)
      refine .ofConclude coherent (fun _ waits => ?_) (fun _ _ unmet => ?_) fun _ _ _ => ?_
      · cases back.running.symm.trans waits
      · have shallow : next.depth < outer.length + 1 := by
          rw [Machine.depth, back.callers]
          exact Nat.lt_succ_self _
        exact absurd shallow (of_decide_eq_false unmet)
      · have inner : debugger.machine.callers ≠ [] := fun none => by
          cases before.inside.callers_ne_nil.symm.trans (List.isEmpty_iff.mpr none)
        obtain ⟨callers, result⟩ := executes.returned isReturn inner
        rw [back.frame, back.callers] at callers
        exact ⟨⟨instr, after, executes, isReturn⟩, callers, back, result⟩

theorem steppingOut_guides (keeps : host.KeepsCompiled) (goesOn : saved.isDone = false) :
    Guides host (fun _ => World.StaysCompiled) (SteppingOut saved outer kept)
      (Machine.ReturnsTo host saved outer kept) where
  unfinished before := before.inside.isFinished
  mode before := by
    rw [before.mode]
    rfl
  changes changed before := ⟨before.inside, changed before.compiled, before.mode⟩
  step before := before.step keeps goesOn

/-- A command to step out that is given in the function that was entered pauses at the return to the
frame that was saved. -/
theorem DebugSession.out (session : DebugSession host (fun _ => World.StaysCompiled) debugger world
      .stepOut steps turn) (keeps : host.KeepsCompiled)
    (inside : Machine.Inside saved outer kept debugger.machine)
    (callers : debugger.machine.callers = saved :: outer) (goesOn : saved.isDone = false)
    (compiled : world.Compiled) (paused : turn.result = .ok .paused) :
    ∃ front callee final, steps = front ++ [(callee, final)] ∧
      Machine.ReturnsTo host saved outer kept callee final turn.debugger.machine := by
  have depth : debugger.machine.depth = outer.length + 1 := congrArg List.length callers
  have begins : SteppingOut saved outer kept (debugger.armed .stepOut) world :=
    ⟨inside, compiled, congrArg (fun depth => some (StepMode.out depth)) depth⟩
  exact ((steppingOut_guides keeps goesOn).session (fun _ => begins) session).pauses paused

end

/-- Wherever a debugger of a compiled program is given the command to step in and pauses at a
greater depth, it is one frame deeper, at the beginning of the function that its last step has
called. If it is told to step out there and pauses, the function has returned: the frame that has
made the call is back, behind the call and with the result as one operand more. -/
theorem Debugger.step_into_one_call_and_out {host : Host σ}
    (keeps : host.KeepsCompiled) {before : World σ} (compiled : before.Compiled)
    {code : Code} {functions : Array Definition}
    (written : Compiler.Writes before.heap.functions code functions) (scope : ScopeRef)
    {debugger : Debugger} {world : World σ}
    (run : Machine.Run host World.StaysCompiled (.start code scope)
      (before.modifyHeap fun heap => { heap with functions }) debugger.machine world)
    {steps : List (Machine × World σ)} {turn : DebugTurn σ}
    (session : DebugSession host (fun _ => World.StaysCompiled) debugger world .stepInto steps turn)
    (paused : turn.result = .ok .paused)
    (deeper : debugger.machine.depth < turn.debugger.machine.depth) :
    turn.debugger.machine.depth = debugger.machine.depth + 1 ∧
      ∃ front caller initial call, steps = front ++ [(caller, initial)] ∧
        Machine.CallsInto host caller initial call turn.debugger.machine ∧
        ∀ {later : World σ} {more : List (Machine × World σ)} {back : DebugTurn σ},
          later.Compiled →
          DebugSession host (fun _ => World.StaysCompiled) turn.debugger later .stepOut more back →
          back.result = .ok .paused →
          back.debugger.machine.depth = debugger.machine.depth ∧
            ∃ front callee final, more = front ++ [(callee, final)] ∧
              Machine.ReturnsTo host caller.begun.frame caller.callers
                (caller.stack.drop call.taken) callee final back.debugger.machine := by
  obtain ⟨⟨places, layout⟩, extension⟩ := written.laidOut
  obtain ⟨disciplined, known⟩ :=
    run.disciplined keeps (Machine.start_disciplined layout scope) (compiled.adopt extension)
  have begins (unfinished : debugger.machine.isFinished = false) :
      SteppingInto debugger.machine.depth (debugger.armed .stepInto) world := by
    refine ⟨disciplined, unfinished, known, ?_⟩
    unfold armed goal
    dsimp only
    split
    · exact Or.inr ⟨Nat.le_refl _, _, _, rfl⟩
    · exact Or.inl ⟨_, rfl⟩
  obtain ⟨front, caller, initial, rfl, enters⟩ :=
    ((steppingInto_guides keeps debugger.machine.depth).session begins session).pauses paused
  obtain ⟨depth, still, call, calls⟩ := enters deeper
  have one : turn.debugger.machine.depth = debugger.machine.depth + 1 := depth ▸ calls.depth_eq
  refine ⟨one, front, caller, initial, call, rfl, calls, ?_⟩
  intro later more back compiled out stopped
  have goesOn := still.caller_not_done (by rw [calls.running]; nofun) calls.callers
  obtain ⟨front, callee, final, rfl, returns⟩ :=
    out.out keeps calls.inside calls.callers goesOn compiled stopped
  have same : back.debugger.machine.depth = caller.depth :=
    congrArg List.length returns.back.callers
  exact ⟨same.trans depth, front, callee, final, rfl, returns⟩

/-- A world with two functions, of which the first answers with what the second answers. -/
def World.nesting (outer inner : Array SourceEntry) : World Unit :=
  { World.withFunctions (.callsG outer) (.answersText inner) with
    intrinsics := [("f", .function ⟨⟨0⟩, none⟩), ("g", .function ⟨⟨1⟩, none⟩)] }

namespace Debugger

/-- A step after which the command is not done. -/
theorem advance_of_unmet {machine next : Machine} {mode : StepMode} {after : World σ}
    {budget most : Nat}
    (steps : machine.stepOnce host world = { machine := next, world := after })
    (running : next.status = .running)
    (unmet : isReached next mode (machine.status = .suspended)
      (machine.nextOpcode?.any Opcode.isCall) = false) :
    ({ machine, mode := some mode, budget := most } : Debugger).advance host (budget + 1) world =
      ({ machine := next, mode := some mode, budget := most } : Debugger).advance host budget
        after := by
  rw [advance_succ, advance_one rfl, steps,
    conclude_goesOn rfl (by rw [Machine.isFinished, running]; rfl) (running ▸ nofun),
    if_neg (Bool.eq_false_iff.mp unmet)]

section

variable (outer inner : Array SourceEntry)

/-- The command to step in has been given, with a budget of three steps. -/
def stepping : DebugTurn Unit :=
  (asking.withBudget 3).issue .silent (.nesting outer inner) .stepInto

/-- The command to step out has been given in the first function. -/
def leaving : DebugTurn Unit :=
  (stepping outer inner).debugger.issue .silent (World.nesting outer inner).entering .stepOut

/-- The command has been continued. -/
def outside : DebugTurn Unit :=
  (leaving outer inner).debugger.poll .silent (leaving outer inner).world

/-- At the beginning of the first function. -/
def inFirst : Machine where
  frame := { code := .callsG outer, scope := ⟨1⟩ }
  callers := [asking.machine.begun.frame]
  status := .running

/-- At the beginning of the second function. -/
def inSecond : Machine :=
  { inFirst outer with
    frame := { code := .answersText inner, scope := ⟨2⟩ }
    callers := [(inFirst outer).begun.frame, asking.machine.begun.frame] }

theorem stepping_result : (stepping outer inner).result = .ok .paused := by
  rw [stepping, asking_issue]
  rfl

theorem stepping_debugger :
    (stepping outer inner).debugger = { machine := inFirst outer, budget := 3 } := by
  rw [stepping, asking_issue]
  rfl

/-- The second function has been called and has returned. -/
theorem leaving_eq : leaving outer inner =
    { debugger := {
        machine := { (inFirst outer).begun with stack := [.text "answer"] }
        mode := some (.out 1)
        budget := 3 }
      world := ((World.nesting outer inner).entering.entering.pass 1000).pass 1000
      result := .ok .running } := by
  have calls : (inFirst outer).stepOnce .silent (World.nesting outer inner).entering =
      { machine := inSecond outer inner, world := (World.nesting outer inner).entering.entering } :=
    rfl
  have answers : (inSecond outer inner).stepOnce .silent
      (World.nesting outer inner).entering.entering =
        { machine := { (inSecond outer inner).begun with stack := [.text "answer"] }
          world := (World.nesting outer inner).entering.entering.pass 1000 } := rfl
  rw [leaving, stepping_debugger, issue_of_unfinished rfl]
  refine (advance_of_unmet calls rfl rfl).trans ((advance_of_unmet answers rfl rfl).trans ?_)
  exact advance_of_unmet rfl rfl rfl

theorem outside_result : (outside outer inner).result = .ok .paused := by
  rw [outside, leaving_eq]
  rfl

theorem nesting_written :
    Compiler.Writes (World.nesting outer inner).heap.functions .asking
      (World.nesting outer inner).heap.functions := by
  have compiles : Compiler.compileProgram none Stmt.asking
      (World.nesting outer inner).heap.functions =
        .ok (.asking, (World.nesting outer inner).heap.functions) := rfl
  exact .program (by decide) compiles

end

/-- A call is entered and left again, with another call and a poll in between. -/
theorem into_nested_call_and_out :
    ∃ outer inner, (stepping outer inner).result = .ok .paused ∧
      (leaving outer inner).result = .ok .running ∧ (outside outer inner).result = .ok .paused ∧
      (stepping outer inner).debugger.machine.depth = asking.machine.depth + 1 ∧
      (outside outer inner).debugger.machine.depth = asking.machine.depth := by
  obtain ⟨outer, outerBody⟩ := Code.callsG_isBody
  obtain ⟨inner, innerBody⟩ := Code.answersText_isBody
  have compiled : (World.nesting outer inner).Compiled :=
    World.withFunctions_compiled outerBody innerBody
  have entered : (World.nesting outer inner).entering.Compiled := compiled
  have running : (leaving outer inner).result = .ok .running := by rw [leaving_eq]
  have isOpen : (leaving outer inner).isOpen = true := by rw [DebugTurn.isOpen, running]
  have deeper : asking.machine.depth < (stepping outer inner).debugger.machine.depth := by
    rw [stepping_debugger]
    exact Nat.lt_succ_self 0
  obtain ⟨one, _, _, _, _, _, _, out⟩ :=
    step_into_one_call_and_out Host.silent_keepsCompiled compiled
      (nesting_written outer inner) ⟨0⟩ .start .issue (stepping_result outer inner) deeper
  obtain ⟨back, _⟩ := out entered (.poll .issue isOpen id) (outside_result outer inner)
  exact ⟨outer, inner, stepping_result outer inner, running, outside_result outer inner, one, back⟩

end Debugger

end MiniScript
