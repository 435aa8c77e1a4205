import MiniScript.Proofs.Debugger.Sessions
import MiniScript.Proofs.World.Scene

/-!
# The instructions of a command

A command in force takes its machine through instructions, one after another. An
instruction that calls a native is completed when the native has answered, at once
or after a wait of many steps. What it comes to depends on the point at which the
machine stood, on the scene and on the answer; and when it is completed, the
command looks whether it is done.
-/

namespace MiniScript

variable {σ ν : Type}

open World Debugger

/-- What natives answer: a result and the scene that is left behind. The answer may depend on how
many natives have answered before, on the call and on the scene in which it was made. -/
abbrev Answers (ν : Type) : Type :=
  Nat → Invocation → Scene ν → Delivery × Scene ν

/-- The natives that are called in these steps come to the given answers, each at once or later. In
the beginning a call may be without its answer yet. -/
inductive Answered (host : Host σ) (view : σ → ν) (answer : Answers ν) :
    Nat → Option (Invocation × Scene ν) → List (Machine × World σ) → Prop where
  | nil (count : Nat) (asked : Option (Invocation × Scene ν)) :
      Answered host view answer count asked []
  /-- No native is called. -/
  | plain {count : Nat} {machine : Machine} {world : World σ} {steps : List (Machine × World σ)}
      (awake : machine.wait? = none) (plain : machine.native? world = none)
      (rest : Answered host view answer count none steps) :
      Answered host view answer count none ((machine, world) :: steps)
  /-- A native answers at once. -/
  | atOnce {count : Nat} {machine next : Machine} {world after : World σ} {call : Invocation}
      {outcome : Except RuntimeError Reply} {delivery : Delivery}
      {steps : List (Machine × World σ)} (calls : machine.native? world = some (next, call))
      (consulted : Library.consult host call (world.pass 1000) = (outcome, after))
      (delivered : Reply.delivery? outcome = some delivery)
      (agrees : answer count call (world.scene view) = (delivery, after.scene view))
      (rest : Answered host view answer (count + 1) none steps) :
      Answered host view answer count none ((machine, world) :: steps)
  /-- A native promises its answer, and the machine begins to wait. -/
  | promised {count : Nat} {machine next : Machine} {world after : World σ} {call : Invocation}
      {ref : DeferredRef} {yields : Bool} {steps : List (Machine × World σ)}
      (calls : machine.native? world = some (next, call))
      (consulted : Library.consult host call (world.pass 1000) =
        (.ok ⟨.pending ref, yields⟩, after))
      (rest : Answered host view answer count (some (call, world.scene view)) steps) :
      Answered host view answer count none ((machine, world) :: steps)
  /-- The answer has not come yet. -/
  | waits {count : Nat} {machine : Machine} {world : World σ} {wait : Wait}
      {asked : Invocation × Scene ν} {steps : List (Machine × World σ)}
      (waiting : machine.wait? = some wait)
      (untold : (Machine.attend (World.poll host) wait world).isWoken wait = false)
      (rest : Answered host view answer count (some asked) steps) :
      Answered host view answer count (some asked) ((machine, world) :: steps)
  /-- The answer has come. -/
  | told {count : Nat} {machine : Machine} {world : World σ} {wait : Wait} {call : Invocation}
      {scene : Scene ν} {delivery : Delivery} {steps : List (Machine × World σ)}
      (waiting : machine.wait? = some wait)
      (woken : (Machine.attend (World.poll host) wait world).isWoken wait = true)
      (delivered : ((Machine.attend (World.poll host) wait world).deferred wait.deferred).result =
        some delivery)
      (agrees : answer count call scene =
        (delivery, (Machine.attend (World.poll host) wait world).scene view))
      (rest : Answered host view answer (count + 1) none steps) :
      Answered host view answer count (some (call, scene)) ((machine, world) :: steps)

/-- Between two polls nothing happens that a program can see, unless its machine waits. -/
def Unseen (view : σ → ν) (machine : Machine) (before after : World σ) : Prop :=
  machine.wait? = none → after.scene view = before.scene view

/-- The number of instructions that are completed in these steps: those that leave a machine that
does not wait. -/
def completed (host : Host σ) (steps : List (Machine × World σ)) : Nat :=
  steps.countP fun step => (step.1.stepOnce host step.2).machine.wait?.isNone

/-- The next instruction of a machine is completed: it calls no native, or it calls one and is
given the answer. -/
inductive Completes (host : Host σ) (view : σ → ν) (answer : Answers ν) (count : Nat)
    (machine : Machine) (scene : Scene ν) : Bool → Turn σ → Prop where
  | plain {world : World σ} (seen : world.scene view = scene)
      (none : machine.native? world = none) :
      Completes host view answer count machine scene false (machine.stepOnce host world)
  | native {world : World σ} {next : Machine} {call : Invocation} {delivery : Delivery}
      {turn : Turn σ} (seen : world.scene view = scene)
      (calls : machine.native? world = some (next, call))
      (answered : answer count call scene = (delivery, turn.world.scene view))
      (meets : turn.Meets (next.given delivery turn.world)) :
      Completes host view answer count machine scene true turn

section

variable {host first second : Host σ} {view : σ → ν} {machine again : Machine} {scene : Scene ν}
variable {answer : Answers ν} {count : Nat} {native other : Bool} {turn also : Turn σ}

theorem Completes.goesOn (completes : Completes host view answer count machine scene native turn)
    (awake : machine.Awake) : Machine.GoesOn turn := by
  cases completes with
  | plain seen none => exact (Machine.step_plain awake none).1
  | native seen calls answered meets => exact meets.goesOn (Machine.given_goesOn _ _ _)

/-- What an instruction comes to depends on the point, the scene and the answers. -/
theorem Completes.agrees (matching : first.Matches second view)
    (left : Completes first view answer count machine scene native turn)
    (right : Completes second view answer count again scene other also)
    (point : machine.SamePoint again) (awake : again.Awake)
    (unfinished : again.isFinished = false) :
    native = other ∧ turn.Meets also ∧ turn.world.scene view = also.world.scene view := by
  have active : again.Active := by
    refine ⟨?_, awake.wait⟩
    rcases awake.cases with finished | active
    · rw [Machine.isFinished, finished] at unfinished
      cases unfinished
    · exact active
  have alsoActive : machine.Active := ⟨point.status ▸ active.status, point.wait ▸ active.awake⟩
  have same {world later : World σ} (seen : world.scene view = scene)
      (seenAgain : later.scene view = scene) : machine.native? world = again.native? later :=
    Machine.native?_of_scene point.samePlace (seen.trans seenAgain.symm) alsoActive active
  cases left with
  | plain seen none =>
      cases right with
      | plain seenAgain _ =>
          have stepped := Machine.step_meets_of_plain matching (point.awake awake) awake
            point.samePlace (seen.trans seenAgain.symm) none
          exact ⟨rfl, stepped _ _⟩
      | native seenAgain calls =>
          rw [same seen seenAgain, calls] at none
          cases none
  | @native world next call delivery _ seen calls answered meets =>
      cases right with
      | plain seenAgain none =>
          rw [← same seen seenAgain, calls] at none
          cases none
      | @native later _ _ _ _ seenAgain callsAgain answeredAgain meetsAgain =>
          rw [← same seen seenAgain, calls] at callsAgain
          cases callsAgain
          rw [answered] at answeredAgain
          injection answeredAgain with delivered scenes
          subst delivered
          have given : (next.given delivery turn.world).Meets (next.given delivery also.world) :=
            Machine.given_meets (.refl next) delivery
          exact ⟨rfl, (meets.trans given).trans meetsAgain.symm, scenes⟩

end

/-- Whether the command is done when an instruction has been completed. -/
def StepMode.stops (machine : Machine) (native : Bool) : StepMode → Bool
  | .over depth line => movedOn machine depth line
  | .into depth line _ => depth < machine.depth || native || movedOn machine depth line
  | .out depth => machine.depth < depth

theorem StepMode.stops_of_samePoint {machine again : Machine} (point : machine.SamePoint again)
    (native : Bool) (goal : StepMode) : goal.stops machine native = goal.stops again native := by
  have moved (depth : Nat) (line : Option Nat) :
      movedOn machine depth line = movedOn again depth line := by
    rw [movedOn, movedOn, point.depth, point.line?]
  cases goal with
  | into depth line awaitingNative => rw [stops, stops, point.depth, moved]
  | out depth => rw [stops, stops, point.depth]
  | _ => exact moved _ _

/-- The command while a native is waited for. -/
def StepMode.awaiting : StepMode → StepMode
  | .into depth line _ => .into depth line true
  | mode => mode

/-- What a completed instruction means for the command. -/
def Debugger.complete (host : Host σ) (debugger : Debugger) (goal : StepMode) (native : Bool)
    (turn : Turn σ) : DebugTurn σ :=
  match turn.error with
  | some error =>
      reportEnd host { debugger with machine := turn.machine, mode := none } turn.world
        (.error error)
  | none =>
      if turn.machine.isFinished then
        reportEnd host { debugger with machine := turn.machine, mode := none } turn.world
          (.ok .finished)
      else if goal.stops turn.machine native then
        rest host { debugger with machine := turn.machine } turn.world
      else
        { debugger := { debugger with machine := turn.machine, mode := some goal }
          world := turn.world
          result := .ok .running }

namespace Debugger

variable {host : Host σ} {debugger : Debugger} {goal mode : StepMode}
variable {native resuming executesCall : Bool} {turn : Turn σ}

/-- An instruction that was not waited for: the flags tell whether it has called a native. -/
theorem isReached_at_once {machine : Machine}
    (noted : (executesCall && machine.lastCallNative) = native) :
    isReached machine goal false executesCall = goal.stops machine native := by
  cases goal with
  | into depth line awaitingNative =>
      simp only [isReached, StepMode.stops, noted]
      by_cases deeper : depth < machine.depth
      · simp [deeper]
      · cases native with
        | true => simp [deeper]
        | false => simp [deeper]
  | _ => rfl

/-- An instruction that was waited for has called a native. -/
theorem isReached_awaiting (machine : Machine) (goal : StepMode) (executesCall : Bool) :
    isReached machine goal.awaiting true executesCall = goal.stops machine true := by
  cases goal with
  | into depth line awaitingNative =>
      simp [StepMode.awaiting, isReached, StepMode.stops]
  | _ => rfl

theorem awaiting_of_not_stops {machine : Machine} (goesOn : goal.stops machine true = false) :
    goal.awaiting = goal := by
  cases goal with
  | into depth line awaitingNative => simp [StepMode.stops] at goesOn
  | _ => rfl

theorem afterSuspension_parked (next : Machine) (yields : Bool) (wait : Wait) (goal : StepMode) :
    afterSuspension (next.parked yields wait) false goal = goal.awaiting := by
  cases goal with
  | into depth line awaitingNative =>
      simp [afterSuspension, StepMode.awaiting, Machine.parked]
  | _ => rfl

theorem afterSuspension_awaiting (machine : Machine) (resuming : Bool) (goal : StepMode) :
    afterSuspension machine resuming goal.awaiting = goal.awaiting := by
  cases goal with
  | into depth line awaitingNative => simp [afterSuspension, StepMode.awaiting]
  | _ => rfl

/-- The step that completes an instruction. -/
theorem conclude_eq_complete (awake : turn.machine.Awake)
    (inForce : debugger.mode = some mode)
    (reached : turn.error = none → isReached turn.machine mode resuming executesCall =
      goal.stops turn.machine native)
    (kept : goal.stops turn.machine native = false → mode = goal) :
    debugger.conclude host mode resuming executesCall turn =
      debugger.complete host goal native turn := by
  have coherent : turn.machine.Coherent := .ofFree awake.awake awake.wait
  cases turn.outcome coherent with
  | failed failed => rw [conclude_failed failed, complete, failed]
  | ended fine finished =>
      rw [conclude_finished fine finished, complete, fine]
      simp only [Machine.isFinished, finished, decide_true, if_true]
  | asleep fine waits =>
      exact absurd waits.status awake.awake
  | goesOn fine unfinished awake =>
      rw [conclude_goesOn fine unfinished awake, complete, fine, unfinished, reached fine]
      cases stops : goal.stops turn.machine native with
      | true => rfl
      | false => simp only [Bool.false_eq_true, if_false, ← kept stops, ← inForce]

end Debugger

/-- A command in force for `goal`. The machine stands before an instruction, or waits for the native
that the instruction has called. -/
inductive Phase (view : σ → ν) (goal : StepMode) (machine : Machine) (scene : Scene ν) :
    Option (Invocation × Scene ν) → DebugTurn σ → Prop where
  | before {turn : DebugTurn σ} (stands : turn.debugger.machine = machine)
      (inForce : turn.debugger.mode = some goal) (seen : turn.world.scene view = scene) :
      Phase view goal machine scene none turn
  | asked {turn : DebugTurn σ} {next : Machine} {call : Invocation} {yields : Bool} {wait : Wait}
      {world : World σ} (seen : world.scene view = scene)
      (calls : machine.native? world = some (next, call))
      (stands : turn.debugger.machine = next.parked yields wait)
      (inForce : turn.debugger.mode = some goal.awaiting) :
      Phase view goal machine scene (some (call, scene)) turn

section

variable {host : Host σ} {view : σ → ν} {goal : StepMode} {machine : Machine} {scene : Scene ν}
variable {answer : Answers ν} {count : Nat} {asked : Option (Invocation × Scene ν)}
variable {turn last : DebugTurn σ} {later : World σ} {steps rest : List (Machine × World σ)}

/-- One step of a command in force: the instruction is completed, or its native is waited for. -/
theorem Phase.step (phase : Phase view goal machine scene asked turn)
    (awake : machine.Awake) (changed : Unseen view turn.debugger.machine turn.world later)
    (answered : Answered host view answer count asked ((turn.debugger.machine, later) :: rest)) :
    (∃ asked, Phase view goal machine scene asked (turn.debugger.advance host 1 later) ∧
      (turn.debugger.advance host 1 later).isOpen = true ∧
      (turn.debugger.advance host 1 later).debugger.endReported = turn.debugger.endReported ∧
      (turn.debugger.machine.stepOnce host later).machine.wait?.isNone = false ∧
      Answered host view answer count asked rest) ∨
    ∃ asks, Completes host view answer count machine scene asks
        (turn.debugger.machine.stepOnce host later) ∧
      turn.debugger.advance host 1 later =
        turn.debugger.complete host goal asks (turn.debugger.machine.stepOnce host later) ∧
      Answered host view answer (count + asks.toNat) none rest := by
  cases phase with
  | before stands inForce seen =>
      subst stands
      have seenLater : later.scene view = scene := (changed awake.wait).trans seen
      rw [advance_one inForce, decide_eq_false awake.awake]
      cases answered with
      | plain _ plain rest =>
          have completes : Completes host view answer count turn.debugger.machine scene false
              (turn.debugger.machine.stepOnce host later) := .plain seenLater plain
          refine .inr ⟨false, completes, ?_, rest⟩
          refine conclude_eq_complete (completes.goesOn awake).awake inForce (fun _ => ?_)
            fun _ => rfl
          refine isReached_at_once (Bool.eq_false_iff.mpr fun both => ?_)
          obtain ⟨executes, noted⟩ := Bool.and_eq_true_iff.mp both
          have unnoted :
              (turn.debugger.machine.stepOnce host later).machine.lastCallNative = false :=
            (Machine.step_plain awake plain).2 executes
          cases unnoted.symm.trans noted
      | @atOnce _ _ _ _ after _ _ _ _ calls consulted delivered agrees rest =>
          have stepped : (turn.debugger.machine.stepOnce host later).Meets _ ∧ _ ∧ _ :=
            Machine.step_answered awake.wait calls consulted delivered
          obtain ⟨meets, left, noted⟩ := stepped
          rw [← left] at meets agrees
          rw [seenLater] at agrees
          have completes : Completes host view answer count turn.debugger.machine scene true
              (turn.debugger.machine.stepOnce host later) :=
            .native seenLater calls agrees meets
          refine .inr ⟨true, completes, ?_, rest⟩
          refine conclude_eq_complete (completes.goesOn awake).awake inForce (fun fine => ?_)
            fun _ => rfl
          refine isReached_at_once ?_
          rw [Machine.native?_opcode awake calls, Bool.true_and]
          exact noted fine
      | @promised _ _ next _ after call ref yields _ calls consulted rest =>
          have stepped : (turn.debugger.machine.stepOnce host later).machine =
                next.parked yields ⟨ref, after.suspensions⟩ ∧
              (turn.debugger.machine.stepOnce host later).error = none :=
            Machine.step_asked calls consulted
          obtain ⟨parked, fine⟩ := stepped
          have suspended :
              (turn.debugger.machine.stepOnce host later).machine.status = .suspended := by
            rw [parked]
            rfl
          rw [conclude_suspended fine suspended, parked, afterSuspension_parked]
          rw [seenLater] at rest
          exact .inl ⟨_, .asked seenLater calls rfl rfl, rfl, rfl, rfl, rest⟩
  | @asked _ next call yields wait world seen calls stands inForce =>
      have waits : turn.debugger.machine.WaitsFor wait := stands ▸ ⟨rfl, rfl⟩
      rw [advance_one inForce, decide_eq_true waits.status]
      cases answered with
      | waits waiting untold rest =>
          cases waits.wait.symm.trans waiting
          have stepped : turn.debugger.machine.stepOnce host later =
              { machine := turn.debugger.machine
                world := Machine.attend (poll host) wait later } :=
            Machine.step_waits waits untold
          rw [stepped, conclude_suspended rfl waits.status, afterSuspension_awaiting]
          refine .inl ⟨_, .asked seen calls stands rfl, rfl, rfl, ?_, rest⟩
          rw [waits.wait]
          rfl
      | @told _ _ _ _ _ _ delivery _ waiting woken delivered agrees rest =>
          cases waits.wait.symm.trans waiting
          have stepped : turn.debugger.machine.stepOnce host later =
              turn.debugger.machine.given delivery _ := Machine.step_told waits woken delivered
          have place : (next.parked yields wait).SamePlace next := ⟨rfl, rfl, rfl⟩
          have told : answer count call scene =
              (delivery, (turn.debugger.machine.stepOnce host later).world.scene view) := by
            rw [stepped, Machine.given_world]
            exact agrees
          have meets : (turn.debugger.machine.stepOnce host later).Meets (next.given delivery
              (turn.debugger.machine.stepOnce host later).world) := by
            rw [stepped, stands]
            exact Machine.given_meets place delivery
          have completes : Completes host view answer count machine scene true
              (turn.debugger.machine.stepOnce host later) := .native seen calls told meets
          refine .inr ⟨true, completes, ?_, rest⟩
          refine conclude_eq_complete (completes.goesOn awake).awake inForce (fun _ => ?_) ?_
          · exact isReached_awaiting _ goal _
          · exact awaiting_of_not_stops

theorem completed_cons (host : Host σ) (machine : Machine) (world : World σ)
    (steps : List (Machine × World σ)) :
    completed host ((machine, world) :: steps) =
      completed host steps + (machine.stepOnce host world).machine.wait?.isNone.toNat := by
  rw [completed, List.countP_cons]
  cases (machine.stepOnce host world).machine.wait?.isNone with
  | true => rfl
  | false => rfl

/-- Steps that begin with the instruction of a machine. -/
inductive FirstOf (host : Host σ) (view : σ → ν) (answer : Answers ν) (count : Nat)
    (goal : StepMode) (machine : Machine) (scene : Scene ν) (reported : Bool)
    (last : DebugTurn σ) (steps : List (Machine × World σ)) : Prop where
  /-- The instruction is not completed in these steps. -/
  | asked (isOpen : last.isOpen = true) (none : completed host steps = 0)
  /-- It is completed, and other instructions follow unless the command is done. -/
  | completes {debugger : Debugger} {asks : Bool} {stepped : Turn σ}
      {rest : List (Machine × World σ)} (same : debugger.endReported = reported)
      (completes : Completes host view answer count machine scene asks stepped)
      (goes : Goes host (Unseen view) last (debugger.complete host goal asks stepped) rest)
      (answered : Answered host view answer (count + asks.toNat) none rest)
      (number : completed host steps = completed host rest + 1)
      (fewer : rest.length < steps.length)

/-- The steps of a command in force begin with the instruction at which the machine stands. -/
theorem Goes.firstOf (goes : Goes host (Unseen view) last turn steps) (isOpen : turn.isOpen = true)
    (phase : Phase view goal machine scene asked turn) (awake : machine.Awake)
    (answered : Answered host view answer count asked steps) :
    FirstOf host view answer count goal machine scene turn.debugger.endReported last steps := by
  induction goes generalizing asked with
  | here => exact .asked isOpen rfl
  | @step turn later steps _ changed rest ih =>
      have counted := completed_cons host turn.debugger.machine later steps
      rcases phase.step awake changed answered with
        ⟨asked, waits, stays, reported, uncounted, more⟩ | ⟨native, completes, concluded, more⟩
      · rw [uncounted] at counted
        cases ih stays waits more with
        | asked isOpen none => exact .asked isOpen (counted.trans none)
        | completes same completes goes answered number fewer =>
            exact .completes (same.trans reported) completes goes answered (counted.trans number)
              (Nat.lt_succ_of_lt fewer)
      · rw [concluded] at rest
        rw [(completes.goesOn awake).awake.wait] at counted
        exact .completes rfl completes rest more counted (Nat.lt_succ_self _)

end

end MiniScript
