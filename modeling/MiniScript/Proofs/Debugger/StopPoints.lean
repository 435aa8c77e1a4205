import MiniScript.Proofs.Debugger.Instructions

/-!
# Where the commands of a debugger stop

A command ends where the program has come to a certain point, and says so. It makes
no difference how many steps each poll may take, and whether the natives that are
called on the way answer at once or later: the instructions that are completed are
the same, one after another, and after each of them the command looks whether it is
done.
-/

namespace MiniScript

variable {σ ν : Type}

open World Debugger

/-- The debuggers have got to the same point, in the same scene, and report the same. -/
structure DebugTurn.SameStop (view : σ → ν) (turn other : DebugTurn σ) : Prop where
  point : turn.debugger.machine.SamePoint other.debugger.machine
  scene : turn.world.scene view = other.world.scene view
  result : turn.result = other.result

namespace Debugger

variable {first second : Host σ} {view : σ → ν} {debugger other : Debugger} {turn also : Turn σ}

theorem reportEnd_sameStop (matching : first.Matches second view) (debugger other : Debugger)
    (point : debugger.machine.SamePoint other.machine)
    (reported : debugger.endReported = other.endReported) {world later : World σ}
    (same : world.scene view = later.scene view) (result : Except ScriptError StepStatus) :
    (debugger.reportEnd first world result).SameStop view
        (other.reportEnd second later result) ∧
      (debugger.reportEnd first world result).debugger.endReported =
        (other.reportEnd second later result).debugger.endReported := by
  unfold reportEnd
  rw [reported]
  split
  · exact ⟨⟨point, same, rfl⟩, reported⟩
  · exact ⟨⟨point, matching.notify .debuggeeFinished same, rfl⟩, rfl⟩

/-- Instructions that come to the same point mean the same for the command. -/
theorem complete_sameStop (matching : first.Matches second view) (meets : turn.Meets also)
    (same : turn.world.scene view = also.world.scene view)
    (reported : debugger.endReported = other.endReported) (goal : StepMode) (native : Bool) :
    (debugger.complete first goal native turn).SameStop view
        (other.complete second goal native also) ∧
      (debugger.complete first goal native turn).debugger.endReported =
        (other.complete second goal native also).debugger.endReported := by
  have ends : turn.machine.isFinished = also.machine.isFinished := by
    rw [Machine.isFinished, meets.point.status]
    rfl
  have location : turn.machine.location? = also.machine.location? := by
    rw [Machine.location?, Machine.position, meets.point.frame]
    rfl
  have ended := reportEnd_sameStop matching { debugger with machine := turn.machine, mode := none }
    { other with machine := also.machine, mode := none } meets.point reported same
  unfold complete
  rw [meets.error, ends, StepMode.stops_of_samePoint meets.point]
  split
  · exact ended _
  · split
    · exact ended _
    · split
      · refine ⟨⟨meets.point, ?_, rfl⟩, reported⟩
        unfold rest
        dsimp only
        rw [location]
        split
        · exact matching.notify _ same
        · exact same
      · exact ⟨⟨meets.point, same, rfl⟩, reported⟩

end Debugger

/-- A command between two instructions: `goal` is in force as long as the command is not done. -/
structure DebugTurn.Between (goal : StepMode) (turn : DebugTurn σ) : Prop where
  awake : turn.debugger.machine.Awake
  unfinished : turn.isOpen = true → turn.debugger.machine.isFinished = false
  inForce : turn.isOpen = true → turn.debugger.mode = some goal

section

variable {first second : Host σ} {view : σ → ν} {goal : StepMode} {answer : Answers ν}
variable {count : Nat} {turn last other final : DebugTurn σ} {steps more : List (Machine × World σ)}

theorem DebugTurn.Between.ofClosed (awake : turn.debugger.machine.Awake)
    (closed : turn.isOpen = false) : turn.Between goal where
  awake := awake
  unfinished isOpen := by cases closed.symm.trans isOpen
  inForce isOpen := by cases closed.symm.trans isOpen

theorem Debugger.complete_between {stepped : Turn σ} (goesOn : Machine.GoesOn stepped)
    (host : Host σ) (debugger : Debugger) (goal : StepMode) (native : Bool) :
    (debugger.complete host goal native stepped).Between goal := by
  unfold complete
  split
  · refine .ofClosed ?_ ?_
    · rw [reportEnd_machine]
      exact goesOn.awake
    · rw [DebugTurn.isOpen, reportEnd_result]
  · split
    · refine .ofClosed ?_ ?_
      · rw [reportEnd_machine]
        exact goesOn.awake
      · rw [DebugTurn.isOpen, reportEnd_result]
    · rename_i unfinished
      split
      · exact .ofClosed goesOn.awake rfl
      · exact ⟨goesOn.awake, fun _ => Bool.eq_false_iff.mpr unfinished, fun _ => rfl⟩

/-- Two sessions with the same answers complete the same instructions: if both are done, they have
stopped in the same way, and while one of them is not, it has completed fewer. -/
theorem Goes.agree (matching : first.Matches second view)
    (goes : Goes first (Unseen view) last turn steps)
    (also : Goes second (Unseen view) final other more)
    (same : turn.SameStop view other)
    (reported : turn.debugger.endReported = other.debugger.endReported)
    (between : turn.Between goal) (alsoBetween : other.Between goal)
    (answered : Answered first view answer count none steps)
    (alsoAnswered : Answered second view answer count none more) (closed : last.isOpen = false) :
    (final.isOpen = false →
        last.SameStop view final ∧ completed first steps = completed second more) ∧
      (final.isOpen = true → completed second more < completed first steps) := by
  -- Each round takes up one instruction of both sessions, with all its steps.
  induction length : steps.length using Nat.strongRecOn
    generalizing turn other steps more count with
  | ind length ih =>
      have together : turn.isOpen = other.isOpen := by
        rw [DebugTurn.isOpen, same.result]
        rfl
      cases isOpen : turn.isOpen with
      | false =>
          cases goes with
          | here =>
              cases also with
              | here =>
                  refine ⟨fun _ => ⟨same, ?_⟩, fun stillOpen => ?_⟩
                  · exact List.countP_nil.trans List.countP_nil.symm
                  · cases (together.symm.trans isOpen).symm.trans stillOpen
              | step stillOpen => cases (together.symm.trans isOpen).symm.trans stillOpen
          | step stillOpen => cases isOpen.symm.trans stillOpen
      | true =>
          have alsoOpen := together.symm.trans isOpen
          have phase : Phase view goal turn.debugger.machine (turn.world.scene view) none turn :=
            .before rfl (between.inForce isOpen) rfl
          have alsoPhase : Phase view goal other.debugger.machine (turn.world.scene view) none
              other := .before rfl (alsoBetween.inForce alsoOpen) same.scene.symm
          cases goes.firstOf isOpen phase between.awake answered with
          | asked stillOpen => cases closed.symm.trans stillOpen
          | @completes debugger native stepped rest noted completes goes answered number fewer =>
              cases also.firstOf alsoOpen alsoPhase alsoBetween.awake alsoAnswered with
              | asked stillOpen none =>
                  refine ⟨fun closed => ?_, fun _ => ?_⟩
                  · cases closed.symm.trans stillOpen
                  · omega
              | @completes others nativeAgain _ remaining notedAgain completesAgain goesAgain
                    answeredAgain numberAgain _ =>
                  obtain ⟨rfl, meets, scenes⟩ := completes.agrees matching completesAgain same.point
                    alsoBetween.awake (alsoBetween.unfinished alsoOpen)
                  obtain ⟨stop, reports⟩ := complete_sameStop matching meets scenes
                    ((noted.trans reported).trans notedAgain.symm) goal native
                  have further := ih rest.length (length ▸ fewer) goes goesAgain stop reports
                    (complete_between (completes.goesOn between.awake) ..)
                    (complete_between (completesAgain.goesOn alsoBetween.awake) ..)
                    answered answeredAgain rfl
                  rw [number, numberAgain]
                  refine ⟨fun ended => ?_, fun stillOpen => Nat.succ_lt_succ (further.2 stillOpen)⟩
                  obtain ⟨stops, counts⟩ := further.1 ended
                  exact ⟨stops, congrArg (· + 1) counts⟩

end

namespace Debugger

variable {host : Host σ} {debugger : Debugger} {world later : World σ} {command : StepCommand}
variable {turn : DebugTurn σ}

/-- A poll completes an instruction, unless the machine waits in the end. -/
theorem completed_moments (inForce : turn.InForce debugger.budget) (isOpen : turn.isOpen = true)
    (budget : Nat)
    (awake : (turn.debugger.advance host (budget + 1) later).debugger.machine.wait? = none) :
    0 < completed host (turn.debugger.moments host (budget + 1) later) := by
  obtain ⟨mode, given⟩ := inForce.mode isOpen
  have machine : (turn.debugger.advance host 1 later).debugger.machine =
      (turn.debugger.machine.stepOnce host later).machine := by
    rw [advance_one given, conclude_machine]
  have settled : (turn.debugger.advance host 1 later).debugger.machine.wait? = none := by
    rw [advance_succ] at awake
    split at awake
    · rename_i running
      exact (advance_inForce inForce isOpen later).awake running
    · exact awake
  rw [moments_succ, completed_cons, ← machine, settled]
  exact Nat.succ_pos _

/-- Where a command that is given here stops. -/
structure StopsAlike (debugger : Debugger) (world : World σ) (command : StepCommand) : Prop where
  /-- It stops in the same way whatever the budget is. -/
  budgets : ∀ {host : Host σ} {tend : World σ → World σ} {budget other : Nat}
    {steps : List (Machine × World σ)} {turn : DebugTurn σ},
    DebugSession host (Tends tend) (debugger.withBudget budget) world command steps turn →
    turn.isOpen = false →
    (∃ more, DebugSession host (Tends tend) (debugger.withBudget other) world command more
        (turn.rebudget (max 1 other))) ∧
      ∀ more again, DebugSession host (Tends tend) (debugger.withBudget other) world command more
        again → again.isOpen = false → again = turn.rebudget (max 1 other)
  /-- It stops in the same way whether natives answer at once or later; as long as it has not
  stopped, it is behind a session that has. -/
  answers : ∀ {ν : Type} {view : σ → ν} {first second : Host σ} {answer : Answers ν}
    {budget other : Nat} {steps more : List (Machine × World σ)} {turn again : DebugTurn σ},
    first.Matches second view →
    DebugSession first (Unseen view) (debugger.withBudget budget) world command steps turn →
    DebugSession second (Unseen view) (debugger.withBudget other) world command more again →
    Answered first view answer 0 none steps → Answered second view answer 0 none more →
    turn.isOpen = false →
      (again.isOpen = false → turn.SameStop view again) ∧
      (again.isOpen = true → completed second more < completed first steps)
  /-- It comes nearer to its end with each poll after which the machine does not wait. -/
  advances : ∀ {ν : Type} {view : σ → ν} {host : Host σ} {budget : Nat}
    {steps : List (Machine × World σ)} {turn : DebugTurn σ} {later : World σ},
    DebugSession host (Unseen view) (debugger.withBudget budget) world command steps turn →
    turn.isOpen = true → (turn.debugger.poll host later).debugger.machine.wait? = none →
      completed host steps <
        completed host (steps ++ turn.debugger.moments host turn.debugger.budget later)

theorem unseen_idles (view : σ → ν) : Idles (Unseen view) :=
  fun _ _ _ _ => rfl

theorem begins_between (awake : debugger.machine.Awake)
    (unfinished : debugger.machine.isFinished = false) (budget : Nat) (world : World σ)
    (command : StepCommand) :
    ((debugger.withBudget budget).begins world command).Between (debugger.goal command) where
  awake := awake
  unfinished _ := unfinished
  inForce _ := by
    cases command with
    | stepOver => rfl
    | stepInto => rfl
    | stepOut => rfl

/-- A budget has at least one step. -/
theorem withBudget_eq_succ (debugger : Debugger) (budget : Nat) :
    ∃ fewer, (debugger.withBudget budget).budget = fewer + 1 :=
  ⟨max 1 budget - 1, by simp only [withBudget]; omega⟩

/-- Commands that are given to a machine that does not wait. -/
theorem stopsAlike_of_awake (awake : debugger.machine.Awake)
    (unfinished : debugger.machine.isFinished = false) :
    debugger.StopsAlike world command where
  budgets session closed :=
    session.ends_with_any_budget (.ofFree awake.awake awake.wait) awake.wait closed
  answers {ν view first second answer budget other steps more turn again} matching session also
      answered alsoAnswered closed := by
    obtain ⟨_, enough⟩ := debugger.withBudget_eq_succ budget
    obtain ⟨_, alsoEnough⟩ := debugger.withBudget_eq_succ other
    have coherent : debugger.machine.Coherent := .ofFree awake.awake awake.wait
    have goes := session.goes (unseen_idles view) enough coherent unfinished awake.wait
    have alsoGoes := also.goes (unseen_idles view) alsoEnough coherent unfinished awake.wait
    have same : ((debugger.withBudget budget).begins world command).SameStop view
        ((debugger.withBudget other).begins world command) := ⟨.refl _, rfl, rfl⟩
    have agree := goes.agree matching alsoGoes same rfl
      (begins_between awake unfinished budget world command)
      (begins_between awake unfinished other world command) answered alsoAnswered closed
    exact ⟨fun ended => (agree.1 ended).1, agree.2⟩
  advances {ν view host budget steps turn later} session isOpen settled := by
    obtain ⟨fewer, enough⟩ := debugger.withBudget_eq_succ budget
    have coherent : debugger.machine.Coherent := .ofFree awake.awake awake.wait
    have inForce := session.inForce (unseen_idles view) enough coherent unfinished awake.wait
    rw [(enough ▸ inForce : DebugTurn.InForce (fewer + 1) _).poll isOpen] at settled
    rw [inForce.budget, enough, completed, completed, List.countP_append]
    exact Nat.lt_add_of_pos_right (completed_moments inForce isOpen fewer settled)

/-- Commands that are given to a machine that has ended. -/
theorem stopsAlike_of_finished (coherent : debugger.machine.Coherent)
    (awake : debugger.machine.wait? = none) (finished : debugger.machine.isFinished = true) :
    debugger.StopsAlike world command where
  budgets session closed := session.ends_with_any_budget coherent awake closed
  answers {ν view first second answer budget other steps more turn again} matching session also
      _ _ _ := by
    rw [(session.of_finished finished).1, (also.of_finished finished).1]
    constructor
    · intro _
      exact (reportEnd_sameStop matching (debugger.withBudget budget) (debugger.withBudget other)
        (.refl _) rfl rfl _).1
    · intro isOpen
      rw [DebugTurn.isOpen, reportEnd_result] at isOpen
      cases isOpen
  advances session isOpen := by
    rw [(session.of_finished finished).1, DebugTurn.isOpen, reportEnd_result] at isOpen
    cases isOpen

end Debugger

/-- Every command of a debugger, given wherever a compiled program does not wait, stops in the same
way whatever its budget is, and whether the natives on its way answer at once or later. -/
theorem Debugger.stops_regardless_of_budget_and_waits {host : Host σ}
    (keeps : host.KeepsCompiled) {before : World σ} (compiled : before.Compiled)
    {code : Code} {functions : Array Definition}
    (written : Compiler.Writes before.heap.functions code functions) (scope : ScopeRef)
    {debugger : Debugger} {world : World σ}
    (run : Machine.Run host World.StaysCompiled (.start code scope)
      (before.modifyHeap fun heap => { heap with functions }) debugger.machine world)
    (wait : debugger.machine.wait? = none) (command : StepCommand) :
    debugger.StopsAlike world command := by
  obtain ⟨⟨places, layout⟩, extension⟩ := written.laidOut
  obtain ⟨disciplined, _⟩ :=
    run.disciplined keeps (Machine.start_disciplined layout scope) (compiled.adopt extension)
  cases ended : debugger.machine.isFinished with
  | true => exact stopsAlike_of_finished disciplined.coherent wait ended
  | false => exact stopsAlike_of_awake (disciplined.awake wait ended) ended

/-- A world where a native is known by a name. -/
def World.asking : World Unit :=
  { World.withNative {} with intrinsics := [("f", .function ⟨⟨0⟩, none⟩)] }

theorem World.asking_compiled : World.asking.Compiled := by
  have natives : ∀ definition ∈ World.asking.heap.functions, definition.body.isNative = true := by
    decide
  intro definition member code script
  have native := natives definition member
  rw [script] at native
  cases native

/-- A program of two lines that calls the native on the first. -/
def Stmt.asking : List Stmt :=
  [.assign 0 (.name ⟨"x", ⟨0, 1, 1⟩, 1⟩) none (.name ⟨"f", ⟨4, 5, 1⟩, 2⟩),
    .assign 3 (.name ⟨"y", ⟨6, 7, 2⟩, 4⟩) none (.null ⟨10, 14, 2⟩ 5)]

def Code.asking : Code :=
  match Compiler.compileProgram none Stmt.asking World.asking.heap.functions with
  | .ok (code, _) => code
  | .error _ => {}

theorem Code.asking_written :
    Compiler.Writes World.asking.heap.functions .asking World.asking.heap.functions := by
  have compiled : Compiler.compileProgram none Stmt.asking World.asking.heap.functions =
      .ok (.asking, World.asking.heap.functions) := rfl
  exact .program (by decide) compiled

theorem Host.silent_matches_slow : Host.silent.Matches Host.slow id where
  intercept _ _ _ same := ⟨rfl, same⟩
  notify _ same := same

namespace Debugger

/-- A debugger before the first line. -/
def asking : Debugger :=
  .start (.start .asking ⟨0⟩) World.asking

/-- The command to enter the call has been given. -/
theorem asking_armed (budget : Nat) :
    (asking.withBudget budget).armed .stepInto =
      { asking.withBudget budget with mode := some (.into 0 asking.machine.line? false) } := by
  have callSite : asking.machine.entry?.any (·.isCallSite) = true := by decide +kernel
  have goal : (asking.withBudget budget).goal .stepInto = .into 0 asking.machine.line? false :=
    if_pos callSite
  rw [armed, goal]

theorem asking_issue (host : Host Unit) (budget : Nat) (world : World Unit) :
    (asking.withBudget budget).issue host world .stepInto =
      { asking.withBudget budget with
        mode := some (.into 0 asking.machine.line? false) }.advance host (max 1 budget) world := by
  rw [← asking_armed]
  exact issue_of_unfinished rfl

/-- The native has promised its answer. -/
def entered : DebugTurn Unit :=
  (asking.withBudget 1).issue .slow World.asking .stepInto

/-- The answer has not come yet. -/
def polled : DebugTurn Unit :=
  entered.debugger.poll .slow entered.world

/-- The answer has come. -/
def polledAgain : DebugTurn Unit :=
  polled.debugger.poll .slow (polled.world.modifyDeferred ⟨0⟩ (·.resolve (.ok .null)))

theorem entered_result : entered.result = .ok .suspended := by
  rw [entered, asking_issue]
  rfl

theorem polled_result : polled.result = .ok .suspended := by
  rw [polled, entered, asking_issue]
  rfl

theorem polledAgain_result : polledAgain.result = .ok .paused := by
  rw [polledAgain, polled, entered, asking_issue]
  rfl

/-- The native answers at once. -/
theorem asking_session : ∃ steps,
    DebugSession .silent (Unseen id) (asking.withBudget 5) World.asking .stepInto steps
      ((asking.withBudget 5).issue .silent World.asking .stepInto) ∧
    Answered Host.silent id (fun _ _ scene => (.ok .null, scene)) 0 none steps := by
  refine ⟨_, .issue, ?_⟩
  rw [asking_armed]
  exact .atOnce rfl rfl rfl rfl (.nil _ _)

/-- The native answers late. -/
theorem polledAgain_session : ∃ steps,
    DebugSession .slow (Unseen id) (asking.withBudget 1) World.asking .stepInto steps polledAgain ∧
    Answered Host.slow id (fun _ _ scene => (.ok .null, scene)) 0 none steps := by
  have waits : entered.debugger.machine.wait? = some ⟨⟨0⟩, 0⟩ := by
    rw [entered, asking_issue]
    rfl
  have stillWaits : polled.debugger.machine.wait? = some ⟨⟨0⟩, 0⟩ := by
    rw [polled, entered, asking_issue]
    rfl
  have promised : entered.isOpen = true := by rw [DebugTurn.isOpen, entered_result]
  have looked : polled.isOpen = true := by rw [DebugTurn.isOpen, polled_result]
  refine ⟨_, .poll (.poll .issue promised ?_) looked ?_, ?_⟩
  · intro awake
    cases waits.symm.trans awake
  · intro awake
    cases stillWaits.symm.trans awake
  · rw [asking_armed, polled, entered, asking_issue]
    exact .promised rfl rfl (.waits rfl rfl (.told rfl rfl rfl rfl (.nil _ _)))

/-- A command that enters a native stops behind it, also when the answer comes late. -/
theorem step_into_waits_out_native :
    let turn := (asking.withBudget 5).issue .silent World.asking .stepInto
    entered.result = .ok .suspended ∧ polled.result = .ok .suspended ∧
      polledAgain.result = .ok .paused ∧ turn.SameStop id polledAgain := by
  have stops : asking.StopsAlike World.asking .stepInto :=
    stops_regardless_of_budget_and_waits Host.silent_keepsCompiled World.asking_compiled
      Code.asking_written ⟨0⟩ .start rfl .stepInto
  obtain ⟨steps, session, answered⟩ := asking_session
  obtain ⟨more, late, alsoAnswered⟩ := polledAgain_session
  have closed : ((asking.withBudget 5).issue .silent World.asking .stepInto).isOpen = false := by
    rw [asking_issue]
    rfl
  have ended : polledAgain.isOpen = false := by rw [DebugTurn.isOpen, polledAgain_result]
  refine ⟨entered_result, polled_result, polledAgain_result, ?_⟩
  exact (stops.answers Host.silent_matches_slow session late answered alsoAnswered closed).1 ended

end Debugger

end MiniScript
