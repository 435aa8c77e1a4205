import MiniScript.Debugger
import MiniScript.Proofs.Machine.Suspension

/-!
# Sessions of a debugger

A command is given, and the debugger is polled until the command is done. Whatever
the budget, such a session is a sequence of single steps: a larger budget only
leaves less room for something to happen in between. So budgets make no difference
to where a session ends.
-/

namespace MiniScript

variable {σ : Type}

/-- The commands of a debugger. -/
inductive StepCommand where
  | stepOver
  | stepInto
  | stepOut

/-- The command is still in force. -/
def DebugTurn.isOpen (turn : DebugTurn σ) : Bool :=
  match turn.result with
  | .ok .running => true
  | .ok .suspended => true
  | _ => false

namespace Debugger

/-- Gives a command. -/
def issue (host : Host σ) (debugger : Debugger) (world : World σ) : StepCommand → DebugTurn σ
  | .stepOver => debugger.stepOver host world
  | .stepInto => debugger.stepInto host world
  | .stepOut => debugger.stepOut host world

/-- What a command that is given now waits for. -/
def goal (debugger : Debugger) : StepCommand → StepMode
  | .stepOver => .over debugger.machine.depth debugger.machine.line?
  | .stepInto =>
      if debugger.machine.entry?.any (·.isCallSite) then
        .into debugger.machine.depth debugger.machine.line? false
      else .over debugger.machine.depth debugger.machine.line?
  | .stepOut => .out debugger.machine.depth

/-- The debugger once the command is in force. -/
def armed (debugger : Debugger) (command : StepCommand) : Debugger :=
  { debugger with mode := some (debugger.goal command) }

/-- The machine and the world before each step of the command in force, if it may take that many
steps. -/
def moments (host : Host σ) : Nat → Debugger → World σ → List (Machine × World σ)
  | 0, _, _ => []
  | budget + 1, debugger, world =>
      let turn := debugger.advance host 1 world
      (debugger.machine, world) ::
        match turn.result with
        | .ok .running => moments host budget turn.debugger turn.world
        | _ => []

end Debugger

open Debugger

/-- A command that is given, and polls as long as it is in force; in between the world may change as
`meanwhile` allows. The list has the machine and the world before each step. -/
inductive DebugSession (host : Host σ) (meanwhile : Machine → World σ → World σ → Prop)
    (debugger : Debugger) (world : World σ) (command : StepCommand) :
    List (Machine × World σ) → DebugTurn σ → Prop where
  | issue : DebugSession host meanwhile debugger world command
      (if debugger.machine.isFinished then []
        else (debugger.armed command).moments host debugger.budget world)
      (debugger.issue host world command)
  | poll {steps : List (Machine × World σ)} {turn : DebugTurn σ} {later : World σ}
      (before : DebugSession host meanwhile debugger world command steps turn)
      (isOpen : turn.isOpen = true)
      (changed : meanwhile turn.debugger.machine turn.world later) :
      DebugSession host meanwhile debugger world command
        (steps ++ turn.debugger.moments host turn.debugger.budget later)
        (turn.debugger.poll host later)

/-- Single steps of the command in force. -/
inductive Goes (host : Host σ) (meanwhile : Machine → World σ → World σ → Prop)
    (last : DebugTurn σ) : DebugTurn σ → List (Machine × World σ) → Prop where
  | here : Goes host meanwhile last last []
  | step {turn : DebugTurn σ} {later : World σ} {steps : List (Machine × World σ)}
      (isOpen : turn.isOpen = true)
      (changed : meanwhile turn.debugger.machine turn.world later)
      (rest : Goes host meanwhile last (turn.debugger.advance host 1 later) steps) :
      Goes host meanwhile last turn ((turn.debugger.machine, later) :: steps)

section

variable {host : Host σ} {meanwhile : Machine → World σ → World σ → Prop} {debugger : Debugger}
variable {world later : World σ} {command : StepCommand} {turn last : DebugTurn σ}
variable {steps more : List (Machine × World σ)}

theorem Goes.trans {middle : DebugTurn σ} (first : Goes host meanwhile middle turn steps)
    (second : Goes host meanwhile last middle more) :
    Goes host meanwhile last turn (steps ++ more) := by
  induction first with
  | here => exact second
  | step isOpen changed _ ih => exact .step isOpen changed ih

/-- What a turn has come to. -/
inductive Turn.Outcome (turn : Turn σ) : Prop where
  | failed {error : ScriptError} (failed : turn.error = some error)
  | ended (fine : turn.error = none) (finished : turn.machine.status = .finished)
  | asleep {wait : Wait} (fine : turn.error = none) (waits : turn.machine.WaitsFor wait)
  | goesOn (fine : turn.error = none) (unfinished : turn.machine.isFinished = false)
      (awake : turn.machine.status ≠ .suspended)

theorem Turn.outcome {turn : Turn σ} (coherent : turn.machine.Coherent) : turn.Outcome := by
  cases failed : turn.error with
  | some error => exact .failed failed
  | none =>
      have goesOn (status : turn.machine.status = .ready ∨ turn.machine.status = .running) :
          turn.Outcome := by
        have active := coherent.active status
        exact .goesOn failed (decide_eq_false active.unfinished) active.going
      cases status : turn.machine.status with
      | finished => exact .ended failed status
      | suspended =>
          obtain ⟨wait, waits⟩ := coherent.waits status
          exact .asleep failed waits
      | ready => exact goesOn (Or.inl status)
      | running => exact goesOn (Or.inr status)

namespace Debugger

theorem issue_eq_arm (host : Host σ) (debugger : Debugger) (world : World σ)
    (command : StepCommand) :
    debugger.issue host world command = debugger.arm host (debugger.goal command) world := by
  cases command with
  | stepOver => rfl
  | stepInto =>
      unfold issue stepInto goal
      dsimp only
      split
      · rfl
      · rfl
  | stepOut => rfl

theorem reportEnd_result (host : Host σ) (debugger : Debugger) (world : World σ)
    (result : Except ScriptError StepStatus) :
    (debugger.reportEnd host world result).result = result := by
  unfold reportEnd
  split
  · rfl
  · rfl

theorem reportEnd_machine (host : Host σ) (debugger : Debugger) (world : World σ)
    (result : Except ScriptError StepStatus) :
    (debugger.reportEnd host world result).debugger.machine = debugger.machine := by
  unfold reportEnd
  split
  · rfl
  · rfl

/-- What one step of a command means for the command. -/
def conclude (host : Host σ) (debugger : Debugger) (mode : StepMode) (resuming executesCall : Bool)
    (turn : Turn σ) : DebugTurn σ :=
  let debugger := { debugger with machine := turn.machine }
  match turn.error, turn.machine.status with
  | some error, _ => reportEnd host { debugger with mode := none } turn.world (.error error)
  | none, .finished => reportEnd host { debugger with mode := none } turn.world (.ok .finished)
  | none, .suspended =>
      { debugger := { debugger with mode := some (afterSuspension turn.machine resuming mode) }
        world := turn.world
        result := .ok .suspended }
  | none, _ =>
      if isReached turn.machine mode resuming executesCall then rest host debugger turn.world
      else { debugger, world := turn.world, result := .ok .running }

section

variable {mode : StepMode} {resuming executesCall : Bool} {stepped : Turn σ}

theorem conclude_failed {error : ScriptError} (failed : stepped.error = some error) :
    debugger.conclude host mode resuming executesCall stepped =
      reportEnd host { debugger with machine := stepped.machine, mode := none } stepped.world
        (.error error) := by
  simp only [conclude, failed]

theorem conclude_finished (fine : stepped.error = none)
    (finished : stepped.machine.status = .finished) :
    debugger.conclude host mode resuming executesCall stepped =
      reportEnd host { debugger with machine := stepped.machine, mode := none } stepped.world
        (.ok .finished) := by
  simp only [conclude, fine, finished]

theorem conclude_suspended (fine : stepped.error = none)
    (waits : stepped.machine.status = .suspended) :
    debugger.conclude host mode resuming executesCall stepped =
      { debugger := { debugger with
          machine := stepped.machine
          mode := some (afterSuspension stepped.machine resuming mode) }
        world := stepped.world
        result := .ok .suspended } := by
  simp only [conclude, fine, waits]

theorem conclude_goesOn (fine : stepped.error = none)
    (unfinished : stepped.machine.isFinished = false)
    (awake : stepped.machine.status ≠ .suspended) :
    debugger.conclude host mode resuming executesCall stepped =
      if isReached stepped.machine mode resuming executesCall then
        rest host { debugger with machine := stepped.machine } stepped.world
      else
        { debugger := { debugger with machine := stepped.machine }
          world := stepped.world
          result := .ok .running } := by
  unfold Machine.isFinished at unfinished
  cases status : stepped.machine.status with
  | finished =>
      rw [status] at unfinished
      cases unfinished
  | suspended => exact absurd status awake
  | ready => simp only [conclude, fine, status]
  | running => simp only [conclude, fine, status]

end

theorem conclude_machine (host : Host σ) (debugger : Debugger) (mode : StepMode)
    (resuming executesCall : Bool) (stepped : Turn σ) :
    (debugger.conclude host mode resuming executesCall stepped).debugger.machine =
      stepped.machine := by
  unfold conclude
  dsimp only
  split
  · exact reportEnd_machine host _ _ _
  · exact reportEnd_machine host _ _ _
  · rfl
  · split
    · rfl
    · rfl

/-- A command in force takes one step. -/
theorem advance_one {mode : StepMode} (inForce : debugger.mode = some mode) (world : World σ) :
    debugger.advance host 1 world =
      debugger.conclude host mode (debugger.machine.status = .suspended)
        (debugger.machine.nextOpcode?.any Opcode.isCall)
        (debugger.machine.stepOnce host world) := by
  unfold advance conclude
  rw [inForce]
  rfl

/-- A command that may take several steps takes one, and then the others. -/
theorem advance_succ (host : Host σ) (budget : Nat) (debugger : Debugger) (world : World σ) :
    debugger.advance host (budget + 1) world =
      match (debugger.advance host 1 world).result with
      | .ok .running =>
          (debugger.advance host 1 world).debugger.advance host budget
            (debugger.advance host 1 world).world
      | _ => debugger.advance host 1 world := by
  cases inForce : debugger.mode with
  | none =>
      unfold advance
      rw [inForce]
  | some mode =>
      rw [advance_one inForce]
      conv => lhs; unfold advance
      unfold conclude
      rw [inForce]
      dsimp only
      generalize debugger.machine.stepOnce host world = turn
      cases turn.error with
      | some error =>
          dsimp only
          rw [reportEnd_result]
      | none =>
          cases turn.machine.status with
          | finished =>
              dsimp only
              rw [reportEnd_result]
          | suspended => rfl
          | ready | running =>
              dsimp only
              split
              · rfl
              · rfl

theorem reportEnd_budget (host : Host σ) (debugger : Debugger) (world : World σ)
    (result : Except ScriptError StepStatus) :
    (debugger.reportEnd host world result).debugger.budget = debugger.budget := by
  unfold reportEnd
  split
  · rfl
  · rfl

end Debugger

/-- The budget is as given. A command that is in force is one of a machine that has not ended, and
a machine that waits is reported as suspended. -/
structure DebugTurn.InForce (budget : Nat) (turn : DebugTurn σ) : Prop where
  coherent : turn.debugger.machine.Coherent
  budget : turn.debugger.budget = budget
  mode : turn.isOpen = true → ∃ mode, turn.debugger.mode = some mode
  unfinished : turn.isOpen = true → turn.debugger.machine.isFinished = false
  awake : turn.result = .ok .running → turn.debugger.machine.wait? = none

theorem DebugTurn.InForce.ofClosed {budget : Nat} (coherent : turn.debugger.machine.Coherent)
    (same : turn.debugger.budget = budget) (closed : turn.isOpen = false) :
    turn.InForce budget where
  coherent := coherent
  budget := same
  mode isOpen := by cases closed.symm.trans isOpen
  unfinished isOpen := by cases closed.symm.trans isOpen
  awake running := by
    rw [DebugTurn.isOpen, running] at closed
    cases closed

namespace Debugger

theorem advance_inForce (inForce : turn.InForce debugger.budget) (isOpen : turn.isOpen = true)
    (later : World σ) : (turn.debugger.advance host 1 later).InForce debugger.budget := by
  obtain ⟨mode, given⟩ := inForce.mode isOpen
  rw [← inForce.budget, advance_one given]
  have coherent : (turn.debugger.machine.stepOnce host later).machine.Coherent :=
    Machine.step_coherent _ inForce.coherent later
  generalize turn.debugger.machine.stepOnce host later = stepped at coherent
  cases Turn.outcome coherent with
  | failed failed =>
      rw [conclude_failed failed]
      refine .ofClosed ?_ (reportEnd_budget host _ _ _) ?_
      · rw [reportEnd_machine]
        exact coherent
      · rw [DebugTurn.isOpen, reportEnd_result]
  | ended fine finished =>
      rw [conclude_finished fine finished]
      refine .ofClosed ?_ (reportEnd_budget host _ _ _) ?_
      · rw [reportEnd_machine]
        exact coherent
      · rw [DebugTurn.isOpen, reportEnd_result]
  | asleep fine waits =>
      rw [conclude_suspended fine waits.status]
      refine ⟨coherent, rfl, fun _ => ⟨_, rfl⟩, fun _ => ?_, ?_⟩
      · rw [Machine.isFinished, waits.status]
        rfl
      · intro running
        cases running
  | goesOn fine unfinished awake =>
      rw [conclude_goesOn fine unfinished awake]
      split
      · exact .ofClosed coherent rfl rfl
      · exact ⟨coherent, rfl, fun _ => ⟨mode, given⟩, fun _ => unfinished,
          fun _ => coherent.free awake⟩

end Debugger

theorem Goes.inForce (goes : Goes host meanwhile last turn steps)
    (inForce : turn.InForce debugger.budget) : last.InForce debugger.budget := by
  induction goes with
  | here => exact inForce
  | step isOpen _ _ ih => exact ih (advance_inForce inForce isOpen _)

/-- Nothing needs to happen between two polls of a machine that does not wait. -/
def Idles (meanwhile : Machine → World σ → World σ → Prop) : Prop :=
  ∀ machine world, machine.wait? = none → meanwhile machine world world

theorem moments_succ (host : Host σ) (budget : Nat) (debugger : Debugger) (world : World σ) :
    debugger.moments host (budget + 1) world = (debugger.machine, world) ::
      match (debugger.advance host 1 world).result with
      | .ok .running =>
          (debugger.advance host 1 world).debugger.moments host budget
            (debugger.advance host 1 world).world
      | _ => [] := rfl

/-- A command that may take several steps takes them one by one. -/
theorem Goes.ofAdvance (idles : Idles meanwhile) (budget : Nat)
    (inForce : turn.InForce debugger.budget) (isOpen : turn.isOpen = true)
    (changed : meanwhile turn.debugger.machine turn.world later) :
    Goes host meanwhile (turn.debugger.advance host (budget + 1) later) turn
      (turn.debugger.moments host (budget + 1) later) := by
  have stepped : (turn.debugger.advance host 1 later).InForce debugger.budget :=
    advance_inForce inForce isOpen later
  rw [advance_succ, moments_succ]
  induction budget generalizing turn later with
  | zero =>
      refine .step isOpen changed ?_
      split
      · rename_i running
        have same : (turn.debugger.advance host 1 later).debugger.advance host 0
            (turn.debugger.advance host 1 later).world = turn.debugger.advance host 1 later := by
          rw [advance, ← running]
        rw [same]
        exact .here
      · exact .here
  | succ budget ih =>
      refine .step isOpen changed ?_
      split
      · rename_i running
        have goesOn : (turn.debugger.advance host 1 later).isOpen = true := by
          rw [DebugTurn.isOpen, running]
        rw [advance_succ, moments_succ]
        exact ih stepped goesOn (idles _ _ (stepped.awake running))
          (advance_inForce stepped goesOn _)
      · exact .here

/-- The debugger as the command is given, before its first step. -/
def Debugger.begins (debugger : Debugger) (world : World σ) (command : StepCommand) :
    DebugTurn σ where
  debugger := debugger.armed command
  world := world
  result := .ok .running

theorem Debugger.issue_of_unfinished (unfinished : debugger.machine.isFinished = false) :
    debugger.issue host world command =
      (debugger.begins world command).debugger.advance host debugger.budget world := by
  rw [issue_eq_arm, arm, unfinished, if_neg Bool.false_ne_true]
  rfl

theorem Debugger.begins_inForce (coherent : debugger.machine.Coherent)
    (unfinished : debugger.machine.isFinished = false) (awake : debugger.machine.wait? = none)
    (world : World σ) (command : StepCommand) :
    (debugger.begins world command).InForce debugger.budget :=
  ⟨coherent, rfl, fun _ => ⟨_, rfl⟩, fun _ => unfinished, fun _ => awake⟩

theorem DebugTurn.InForce.poll {budget : Nat} (inForce : turn.InForce (budget + 1))
    (isOpen : turn.isOpen = true) (world : World σ) :
    turn.debugger.poll host world = turn.debugger.advance host (budget + 1) world := by
  obtain ⟨mode, given⟩ := inForce.mode isOpen
  simp only [Debugger.poll, inForce.unfinished isOpen, Bool.false_eq_true, if_false, given,
    inForce.budget]

/-- A session goes on step by step. -/
theorem DebugSession.goes (session : DebugSession host meanwhile debugger world command steps turn)
    (idles : Idles meanwhile) {budget : Nat} (positive : debugger.budget = budget + 1)
    (coherent : debugger.machine.Coherent) (unfinished : debugger.machine.isFinished = false)
    (awake : debugger.machine.wait? = none) :
    Goes host meanwhile turn (debugger.begins world command) steps := by
  have begins := begins_inForce coherent unfinished awake world command
  induction session with
  | issue =>
      rw [issue_of_unfinished unfinished, unfinished, if_neg Bool.false_ne_true, positive]
      exact .ofAdvance idles budget begins rfl (idles _ _ awake)
  | poll before isOpen changed ih =>
      have inForce := ih.inForce begins
      refine ih.trans ?_
      rw [(positive ▸ inForce : DebugTurn.InForce (budget + 1) _).poll isOpen, inForce.budget,
        positive]
      exact .ofAdvance idles budget inForce isOpen changed

theorem DebugSession.inForce
    (session : DebugSession host meanwhile debugger world command steps turn)
    (idles : Idles meanwhile) {budget : Nat} (positive : debugger.budget = budget + 1)
    (coherent : debugger.machine.Coherent) (unfinished : debugger.machine.isFinished = false)
    (awake : debugger.machine.wait? = none) :
    turn.InForce debugger.budget :=
  (session.goes idles positive coherent unfinished awake).inForce
    (begins_inForce coherent unfinished awake world command)

theorem Debugger.issue_of_finished (finished : debugger.machine.isFinished = true) :
    debugger.issue host world command = debugger.reportEnd host world (.ok .finished) := by
  rw [issue_eq_arm, arm, if_pos finished]

/-- A command that is given to a machine that has ended is over at once. -/
theorem DebugSession.of_finished
    (session : DebugSession host meanwhile debugger world command steps turn)
    (finished : debugger.machine.isFinished = true) :
    turn = debugger.reportEnd host world (.ok .finished) ∧ steps = [] := by
  induction session with
  | issue => exact ⟨issue_of_finished finished, if_pos finished⟩
  | poll before isOpen changed ih =>
      rw [ih.1, DebugTurn.isOpen, reportEnd_result] at isOpen
      cases isOpen

/-- While the machine waits, the world is tended to before each poll; nothing else happens. -/
def Tends (tend : World σ → World σ) (machine : Machine) (before after : World σ) : Prop :=
  after = if machine.wait?.isSome then tend before else before

theorem tends_idles (tend : World σ → World σ) : Idles (Tends tend) := by
  intro machine world awake
  rw [Tends, awake]
  rfl

/-- The same turn of a debugger with another budget. -/
def DebugTurn.rebudget (turn : DebugTurn σ) (budget : Nat) : DebugTurn σ :=
  { turn with debugger := { turn.debugger with budget } }

theorem Debugger.reportEnd_rebudget (host : Host σ) (debugger : Debugger) (world : World σ)
    (result : Except ScriptError StepStatus) (budget : Nat) :
    { debugger with budget }.reportEnd host world result =
      (debugger.reportEnd host world result).rebudget budget := by
  unfold reportEnd
  dsimp only
  split
  · rfl
  · rfl

theorem Debugger.conclude_rebudget (host : Host σ) (debugger : Debugger) (mode : StepMode)
    (resuming executesCall : Bool) (stepped : Turn σ) (budget : Nat) :
    { debugger with budget }.conclude host mode resuming executesCall stepped =
      (debugger.conclude host mode resuming executesCall stepped).rebudget budget := by
  have ended := reportEnd_rebudget host { debugger with machine := stepped.machine, mode := none }
    stepped.world
  unfold conclude
  cases stepped.error with
  | some error => exact ended _ budget
  | none =>
      cases stepped.machine.status with
      | finished => exact ended _ budget
      | suspended => rfl
      | ready | running =>
          dsimp only
          split
          · rfl
          · rfl

theorem Debugger.advance_rebudget (host : Host σ) (debugger : Debugger) (world : World σ)
    (budget : Nat) :
    { debugger with budget }.advance host 1 world =
      (debugger.advance host 1 world).rebudget budget := by
  obtain ⟨machine, mode, old, reported⟩ := debugger
  cases mode with
  | none => rfl
  | some mode =>
      have inForce : (⟨machine, some mode, old, reported⟩ : Debugger).mode = some mode := rfl
      have also : (⟨machine, some mode, budget, reported⟩ : Debugger).mode = some mode := rfl
      rw [advance_one inForce, advance_one also]
      exact conclude_rebudget host ⟨machine, some mode, old, reported⟩ mode _ _ _ budget

theorem Goes.rebudget (goes : Goes host meanwhile last turn steps) (budget : Nat) :
    Goes host meanwhile (last.rebudget budget) (turn.rebudget budget) steps := by
  induction goes with
  | here => exact .here
  | @step turn later steps isOpen changed rest ih =>
      rw [← Debugger.advance_rebudget] at ih
      have stays : (turn.rebudget budget).isOpen = true := isOpen
      exact .step stays changed ih

/-- If what happens in between is fixed, so is the end. -/
theorem Goes.unique {tend : World σ → World σ} {other : DebugTurn σ}
    (first : Goes host (Tends tend) last turn steps)
    (second : Goes host (Tends tend) other turn more) (closed : last.isOpen = false)
    (also : other.isOpen = false) : other = last := by
  induction first generalizing more with
  | here =>
      cases second with
      | here => rfl
      | step isOpen => cases closed.symm.trans isOpen
  | step isOpen changed _ ih =>
      cases second with
      | here => cases also.symm.trans isOpen
      | step _ again rest =>
          obtain rfl := again.trans changed.symm
          exact ih rest

/-- A poll with any budget comes nearer to the end. -/
theorem Goes.nearer {tend : World σ → World σ} (inForce : turn.InForce debugger.budget)
    (goes : Goes host (Tends tend) last turn steps) (isOpen : turn.isOpen = true)
    (closed : last.isOpen = false) (changed : Tends tend turn.debugger.machine turn.world later)
    (budget : Nat) :
    ∃ fewer, Goes host (Tends tend) last (turn.debugger.advance host (budget + 1) later) fewer ∧
      fewer.length < steps.length := by
  induction budget generalizing turn later steps with
  | zero =>
      cases goes with
      | here => cases closed.symm.trans isOpen
      | step _ again rest =>
          obtain rfl := again.trans changed.symm
          exact ⟨_, rest, Nat.lt_succ_self _⟩
  | succ budget ih =>
      cases goes with
      | here => cases closed.symm.trans isOpen
      | @step _ later _ _ again rest =>
          obtain rfl := again.trans changed.symm
          rw [advance_succ]
          split
          · rename_i running
            have stepped : (turn.debugger.advance host 1 later).InForce debugger.budget :=
              advance_inForce inForce isOpen later
            have goesOn : (turn.debugger.advance host 1 later).isOpen = true := by
              rw [DebugTurn.isOpen, running]
            obtain ⟨fewer, further, less⟩ := ih stepped rest goesOn
              (tends_idles tend _ _ (stepped.awake running))
            exact ⟨fewer, further, Nat.lt_succ_of_lt less⟩
          · exact ⟨_, rest, Nat.lt_succ_self _⟩

/-- Polls with any budget come to the end, if there is one. -/
theorem DebugSession.reaches {tend : World σ → World σ} {budget : Nat}
    (session : DebugSession host (Tends tend) debugger world command steps turn)
    (positive : debugger.budget = budget + 1) (coherent : debugger.machine.Coherent)
    (unfinished : debugger.machine.isFinished = false) (awake : debugger.machine.wait? = none)
    (closed : last.isOpen = false)
    (goes : Goes host (Tends tend) last turn more) :
    ∃ all, DebugSession host (Tends tend) debugger world command all last := by
  induction length : more.length using Nat.strongRecOn generalizing steps turn more with
  | ind length ih =>
      have inForce := session.inForce (tends_idles tend) positive coherent unfinished awake
      cases isOpen : turn.isOpen with
      | false =>
          cases goes with
          | here => exact ⟨steps, session⟩
          | step open' => cases isOpen.symm.trans open'
      | true =>
          have polled := session.poll isOpen rfl
          rw [(positive ▸ inForce : DebugTurn.InForce (budget + 1) _).poll isOpen] at polled
          obtain ⟨fewer, nearer, less⟩ := goes.nearer inForce isOpen closed rfl budget
          exact ih fewer.length (length ▸ less) polled nearer rfl

/-- Whatever the budget, a session ends in the same way. -/
theorem DebugSession.ends_with_any_budget {tend : World σ → World σ} {budget other : Nat}
    (coherent : debugger.machine.Coherent) (awake : debugger.machine.wait? = none)
    (session : DebugSession host (Tends tend) (debugger.withBudget budget) world command steps turn)
    (closed : turn.isOpen = false) :
    (∃ more, DebugSession host (Tends tend) (debugger.withBudget other) world command more
        (turn.rebudget (max 1 other))) ∧
      ∀ more again,
        DebugSession host (Tends tend) (debugger.withBudget other) world command more again →
        again.isOpen = false → again = turn.rebudget (max 1 other) := by
  cases ended : debugger.machine.isFinished with
  | true =>
      have same : (debugger.withBudget other).reportEnd host world (.ok .finished) =
          turn.rebudget (max 1 other) := by
        rw [(session.of_finished ended).1]
        exact reportEnd_rebudget host (debugger.withBudget budget) world _ _
      have issued : (debugger.withBudget other).issue host world command =
          (debugger.withBudget other).reportEnd host world (.ok .finished) :=
        issue_of_finished ended
      constructor
      · rw [← same, ← issued]
        exact ⟨_, .issue⟩
      · intro more again session _
        rw [(session.of_finished ended).1, same]
  | false =>
      obtain ⟨steps, positive⟩ : ∃ steps, max 1 other = steps + 1 := ⟨max 1 other - 1, by omega⟩
      obtain ⟨fewer, enough⟩ : ∃ fewer, max 1 budget = fewer + 1 := ⟨max 1 budget - 1, by omega⟩
      have goes :=
        (session.goes (tends_idles tend) enough coherent ended awake).rebudget (max 1 other)
      have stays : (turn.rebudget (max 1 other)).isOpen = false := closed
      constructor
      · have begins := @begins_inForce σ (debugger.withBudget other) coherent ended awake world
          command
        have first : DebugSession host (Tends tend) (debugger.withBudget other) world command _ _ :=
          .issue
        rw [@issue_of_unfinished σ host (debugger.withBudget other) world command ended] at first
        obtain ⟨rest, further, _⟩ := goes.nearer begins rfl stays
          (tends_idles tend _ _ awake) steps
        rw [← positive] at further
        exact first.reaches positive coherent ended awake stays further
      · intro more again session also
        exact goes.unique (session.goes (tends_idles tend) positive coherent ended awake) stays also

end

end MiniScript
