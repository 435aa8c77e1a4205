import Mathlib
import MiniScript.Proofs.Debugger.Sessions
import MiniScript.Proofs.Machine.Drivers

/-!
# Bursts that make progress

Runs to the end, runs of the interpreter and the commands of a debugger are loops of
bursts that have no bound of their own. They come to an end with every program that
single steps bring to an end, as long as a burst has at least one cycle. A limit of no
cycles is accepted too; then none of the loops ever moves the program.
-/

namespace MiniScript

variable {σ : Type}

open World

/-- What the host does when it is told something is a change that `outside` allows; such changes
leave the limits and the global scope alone. -/
structure Host.Interjects (host : Host σ) (outside : World σ → World σ → Prop) : Prop where
  refl : ∀ world, outside world world
  notify : ∀ notice world, outside world (host.notify notice world)
  limits : ∀ {world later}, outside world later → later.limits = world.limits
  globals : ∀ {world later}, outside world later → later.globals = world.globals

namespace Machine

variable {host : Host σ} {outside : World σ → World σ → Prop} {machine : Machine}
variable {world : World σ}

/-- Single steps bring the machine to its end, and it never waits on the way. Before each step the
world may change as `outside` allows. -/
inductive Ends (host : Host σ) (outside : World σ → World σ → Prop) : Machine → World σ → Prop where
  | finished {machine : Machine} {world : World σ} (ended : machine.status = .finished) :
      Ends host outside machine world
  | step {machine : Machine} {world : World σ} (awake : machine.status ≠ .suspended)
      (rest : ∀ later, outside world later →
        Ends host outside (machine.stepOnce host later).machine
          (machine.stepOnce host later).world) :
      Ends host outside machine world

theorem Ends.awake (ends : Ends host outside machine world) : machine.status ≠ .suspended := by
  cases ends with
  | finished ended => exact ended ▸ nofun
  | step awake => exact awake

theorem stepOnce_finished (ended : machine.status = .finished) (world : World σ) :
    machine.stepOnce host world = { machine, world } :=
  step_finished host _ ended world

/-- The first of several steps. -/
theorem stepped_succ (fine : (machine.stepOnce host world).error = none) (count : Nat) :
    stepped host machine world (count + 1) =
      stepped host (machine.stepOnce host world).machine (machine.stepOnce host world).world
        count := by
  induction count with
  | zero =>
      simp only [stepped]
      generalize machine.stepOnce host world = turn at fine
      obtain ⟨next, after, error⟩ := turn
      obtain rfl : error = none := fine
      rfl
  | succ count ih => rw [stepped, ih, stepped]

/-- If nothing happens in between, it is enough that a number of steps leads to the end. -/
theorem Ends.ofStepped {count : Nat}
    (awake : ∀ fewer ≤ count, (stepped host machine world fewer).machine.status ≠ .suspended)
    (ended : (stepped host machine world count).machine.status = .finished) :
    Ends host Eq machine world := by
  induction count generalizing machine world with
  | zero => exact .finished ended
  | succ count ih =>
      refine .step (awake 0 (Nat.zero_le _)) ?_
      rintro _ rfl
      cases fine : (machine.stepOnce host world).error with
      | none =>
          rw [stepped_succ fine] at ended
          refine ih (fun fewer less => ?_) ended
          have waits := awake (fewer + 1) (Nat.succ_le_succ less)
          rwa [stepped_succ fine] at waits
      | some error =>
          -- An error ends the sequence of steps, so the last turn is the first one.
          have stays (more : Nat) :
              stepped host machine world (more + 1) = machine.stepOnce host world := by
            induction more with
            | zero => rfl
            | succ more ih => rw [stepped, ih, fine]
          rw [stays] at ended
          exact .finished ended

/-- The machine once the request to end the burst has been heard. -/
def patient (machine : Machine) : Machine :=
  { machine with yieldRequested := false }

end Machine

theorem Machine.status_of_patient {machine again : Machine}
    (same : again.patient = machine.patient) : again.status = machine.status := by
  injection same

/-- The turn once the request to end the burst has been heard. -/
def Turn.patient (turn : Turn σ) : Turn σ :=
  { turn with machine := turn.machine.patient }

theorem Turn.of_patient {turn other : Turn σ} (same : turn.patient = other.patient) :
    turn.machine.patient = other.machine.patient ∧ turn.world = other.world := by
  injection same with machine world
  exact ⟨machine, world⟩

namespace Machine

variable {host : Host σ} {outside : World σ → World σ → Prop} {machine : Machine}
variable {world : World σ}

theorem settle_patient (machine : Machine) (world : World σ) :
    machine.patient.settle world = (machine.settle world).patient := by
  unfold settle
  dsimp only [patient]
  split
  · split
    · rfl
    · rfl
  · rfl

theorem advance_patient (host : Host σ) (machine : Machine) (world : World σ) :
    machine.patient.advance host world = machine.advance host world := rfl

/-- A step does not notice whether the request of an earlier one has been heard. -/
theorem stepOnce_patient (awake : machine.status ≠ .suspended) (world : World σ) :
    (machine.patient.stepOnce host world).patient = (machine.stepOnce host world).patient := by
  have whileActive (active : machine.status = .ready ∨ machine.status = .running) :
      (machine.patient.stepOnce host world).patient = (machine.stepOnce host world).patient := by
    have settled : { machine.patient with status := .running }.settle world =
        ({ machine with status := .running }.settle world).patient :=
      settle_patient { machine with status := .running } world
    have also : machine.patient.status = .ready ∨ machine.patient.status = .running := active
    rw [stepOnce, stepOnce, step_of_active host _ active, step_of_active host _ also, settled]
    generalize { machine with status := .running }.settle world = turn
    have same : turn.patient.machine.status = turn.machine.status := rfl
    dsimp only
    rw [same]
    split
    · exact congrArg Turn.patient (advance_patient host turn.machine turn.world)
    · rfl
  cases status : machine.status with
  | finished =>
      have also : machine.patient.status = .finished := status
      rw [stepOnce_finished status, stepOnce_finished also]
      rfl
  | suspended => exact absurd status awake
  | ready => exact whileActive (Or.inl status)
  | running => exact whileActive (Or.inr status)

/-- An error ends the machine. -/
theorem advance_ended (machine : Machine) (world : World σ) :
    (machine.advance host world).error ≠ none →
      (machine.advance host world).machine.status = .finished := by
  rw [advance_eq]
  split
  · exact fun _ => rfl
  · split
    · rename_i next after _
      split
      · exact settle_ended next after
      · exact fun failed => absurd rfl failed
    · exact fun _ => rfl

theorem stepOnce_ended (machine : Machine) (world : World σ) :
    (machine.stepOnce host world).error ≠ none →
      (machine.stepOnce host world).machine.status = .finished := by
  have stepped := step_stepped host (World.poll host) machine world
  unfold stepOnce
  generalize machine.step host (World.poll host) world = turn at stepped ⊢
  cases stepped with
  | ended finished => exact fun _ => finished
  | stayed => exact resume_ended _
  | woke | settled => exact settle_ended _ _
  | advanced => exact advance_ended _ _

/-- Some cycles are one step, or one step and the other cycles. -/
theorem cycles_succ (budget : Nat) (machine : Machine) (world : World σ) :
    (machine.cycles host (budget + 1) world).patient = (machine.stepOnce host world).patient ∨
      (machine.stepOnce host world).error = none ∧
        machine.cycles host (budget + 1) world =
          (machine.stepOnce host world).machine.cycles host budget
            (machine.stepOnce host world).world := by
  have ended := @stepOnce_ended σ host machine world
  unfold cycles
  rw [runCycles]
  dsimp only
  rw [← stepOnce]
  generalize machine.stepOnce host world = turn at ended
  split
  · rename_i running
    split
    · exact Or.inl rfl
    · refine Or.inr ⟨Option.eq_none_iff_forall_ne_some.mpr fun error failed => ?_, rfl⟩
      cases running.symm.trans (ended (failed ▸ Option.some_ne_none error))
  · exact Or.inl rfl

/-- Cycles are steps, and at least one if there is to be any. -/
theorem cycles_stepped (budget : Nat) (machine : Machine) (world : World σ) :
    ∃ count, (1 ≤ budget → 1 ≤ count) ∧ count ≤ budget ∧
      (machine.cycles host budget world).patient =
        (stepped host machine world count).patient := by
  induction budget generalizing machine world with
  | zero => exact ⟨0, id, Nat.le_refl _, rfl⟩
  | succ budget ih =>
      rcases cycles_succ budget machine world with once | ⟨fine, others⟩
      · exact ⟨1, fun _ => Nat.le_refl _, Nat.le_add_left _ _, once⟩
      · obtain ⟨count, _, few, same⟩ := ih (machine.stepOnce host world).machine
          (machine.stepOnce host world).world
        refine ⟨count + 1, fun _ => Nat.le_add_left _ _, Nat.succ_le_succ few, ?_⟩
        rw [others, stepped_succ fine]
        exact same

/-- What follows a burst in a loop of bursts. -/
def goOn (host : Host σ) (between : World σ → World σ) (fuel : Nat) (turn : Turn σ) : Turn σ :=
  match turn.machine.status with
  | .finished => turn
  | .suspended =>
      let turn := turn.machine.pause turn.world
      match turn.error with
      | some _ => turn
      | none => drive host between fuel turn.machine turn.world
  | _ => drive host between fuel turn.machine (between turn.world)

theorem drive_succ (between : World σ → World σ) (fuel : Nat) (machine : Machine)
    (world : World σ) :
    machine.drive host between (fuel + 1) world =
      goOn host between fuel (machine.cycles host world.limits.burstCycles world) := rfl

section

variable {between : World σ → World σ} (keeps : host.Keeps SameLimits)
variable (interjects : host.Interjects outside) (told : ∀ world, outside world (between world))

include keeps interjects told

/-- From anywhere inside a burst, a loop of bursts brings the machine to its end. -/
theorem Ends.goOn (ends : Ends host outside machine world)
    (positive : 1 ≤ world.limits.burstCycles) {again : Machine}
    (same : again.patient = machine.patient) {later : World σ} (changed : outside world later)
    (budget : Nat) :
    ∃ enough, ∀ fuel, enough ≤ fuel →
      (Machine.goOn host between fuel (again.cycles host (budget + 1) later)).machine.status =
        .finished := by
  induction ends generalizing again later budget with
  | @finished machine world ended =>
      have also : again.status = .finished := (status_of_patient same).trans ended
      refine ⟨0, fun fuel _ => ?_⟩
      rw [cycles, runCycles_finished _ also, Machine.goOn, also]
      exact also
  | @step machine world awake rest ih =>
      have next : (again.stepOnce host later).patient =
          (machine.stepOnce host later).patient := by
        have alsoAwake : again.status ≠ .suspended := by
          rw [status_of_patient same]
          exact awake
        rw [← stepOnce_patient awake, ← stepOnce_patient alsoAwake, same]
      have limits : (machine.stepOnce host later).world.limits = world.limits :=
        ((becomes_step becomes_poll machine later).sameLimits keeps).trans
          (interjects.limits changed)
      -- The burst may be over after this step; then the next one begins.
      have goesOn (turn : Turn σ) (after : turn.patient = (machine.stepOnce host later).patient) :
          ∃ enough, ∀ fuel, enough ≤ fuel →
            (Machine.goOn host between fuel turn).machine.status = .finished := by
        obtain ⟨place, same⟩ := Turn.of_patient after
        unfold Machine.goOn
        split
        · rename_i ended
          exact ⟨0, fun _ _ => ended⟩
        · rename_i suspended
          exact absurd ((status_of_patient place).symm.trans suspended) (rest later changed).awake
        · have outside := told (machine.stepOnce host later).world
          obtain ⟨cycles, burst⟩ : ∃ cycles, (between turn.world).limits.burstCycles =
              cycles + 1 := by
            rw [same, interjects.limits outside, limits]
            exact ⟨_, (Nat.sub_add_cancel positive).symm⟩
          obtain ⟨enough, ends⟩ := ih later changed (limits ▸ positive) place outside cycles
          refine ⟨enough + 1, fun fuel many => ?_⟩
          obtain ⟨fuel, rfl⟩ : ∃ fewer, fuel = fewer + 1 := ⟨fuel - 1, by omega⟩
          rw [drive_succ, burst, same]
          exact ends fuel (Nat.le_of_succ_le_succ many)
      rcases cycles_succ budget again later with once | ⟨fine, others⟩
      · exact goesOn _ (once.trans next)
      · obtain ⟨place, same⟩ := Turn.of_patient next
        rw [others, same]
        cases budget with
        | zero =>
            refine goesOn _ ?_
            rw [← next, ← same]
            generalize again.stepOnce host later = turn at fine
            obtain ⟨_, _, error⟩ := turn
            obtain rfl : error = none := fine
            rfl
        | succ budget =>
            exact ih later changed (limits ▸ positive) place (interjects.refl _) budget

/-- With bursts of at least one cycle, a loop of bursts ends. -/
theorem Ends.drive (ends : Ends host outside machine world)
    (positive : 1 ≤ world.limits.burstCycles) {later : World σ} (changed : outside world later) :
    ∃ enough, ∀ fuel, enough ≤ fuel →
      (machine.drive host between fuel later).machine.status = .finished := by
  obtain ⟨cycles, burst⟩ : ∃ cycles, later.limits.burstCycles = cycles + 1 := by
    rw [interjects.limits changed]
    exact ⟨_, (Nat.sub_add_cancel positive).symm⟩
  obtain ⟨enough, ends⟩ := ends.goOn keeps interjects told positive rfl changed cycles
  refine ⟨enough + 1, fun fuel many => ?_⟩
  obtain ⟨fuel, rfl⟩ : ∃ fewer, fuel = fewer + 1 := ⟨fuel - 1, by omega⟩
  rw [drive_succ, burst]
  exact ends fuel (Nat.le_of_succ_le_succ many)

end

/-- Once a loop of bursts has ended, more of them change nothing. -/
theorem drive_stable {between : World σ → World σ} {fuel : Nat}
    (ended : (machine.drive host between fuel world).machine.status = .finished) (more : Nat) :
    machine.drive host between (fuel + more) world = machine.drive host between fuel world := by
  induction fuel generalizing machine world with
  | zero =>
      cases more with
      | zero => rfl
      | succ more =>
          have stays : machine.status = .finished := ended
          rw [Nat.zero_add, drive_succ, cycles, runCycles_finished _ stays, Machine.goOn, stays]
          rfl
  | succ fuel ih =>
      rw [Nat.add_right_comm, drive_succ, drive_succ] at *
      generalize machine.cycles host world.limits.burstCycles world = turn at ended ⊢
      unfold Machine.goOn at ended ⊢
      split
      · rfl
      · rename_i suspended
        rw [suspended] at ended
        dsimp only at ended ⊢
        split
        · rfl
        · rename_i fine
          rw [fine] at ended
          exact ih ended
      · rename_i unfinished awake
        split at ended
        · contradiction
        · exact absurd ‹_› awake
        · exact ih ended

/-- Bursts without a cycle leave the machine where it is. -/
theorem drive_stalls {between : World σ → World σ} (awake : machine.status ≠ .suspended)
    (unfinished : machine.isFinished = false) (same : ∀ world, SameLimits world (between world))
    (none : world.limits.burstCycles = 0) (fuel : Nat) :
    (machine.drive host between fuel world).machine = machine := by
  induction fuel generalizing world with
  | zero => rfl
  | succ fuel ih =>
      have stays : Machine.goOn host between fuel { machine, world } =
          machine.drive host between fuel (between world) := by
        unfold Machine.goOn
        dsimp only
        split
        · rename_i ended
          rw [isFinished, ended] at unfinished
          cases unfinished
        · rename_i suspended
          exact absurd suspended awake
        · rfl
      rw [drive_succ, none, cycles, runCycles, stays]
      refine ih ?_
      rw [same world, none]

end Machine

namespace Debugger

variable {host : Host σ} {outside : World σ → World σ → Prop} {debugger : Debugger}
variable {world : World σ} {command : StepCommand}

/-- The turn of a debugger after that many polls. -/
def pollTimes (host : Host σ) (turn : DebugTurn σ) : Nat → DebugTurn σ
  | 0 => turn
  | count + 1 => pollTimes host (turn.debugger.poll host turn.world) count

theorem poll_inForce {mode : StepMode} (unfinished : debugger.machine.isFinished = false)
    (inForce : debugger.mode = some mode) (world : World σ) :
    debugger.poll host world = debugger.advance host debugger.budget world := by
  simp only [poll, unfinished, Bool.false_eq_true, if_false, inForce]

/-- A command whose polls take at least one step is done after some polls. -/
theorem pollTimes_closes (refl : ∀ world, outside world world) {machine : Machine}
    (ends : machine.Ends host outside world) (coherent : machine.Coherent)
    (same : debugger.machine = machine) (unfinished : machine.isFinished = false)
    {mode : StepMode} (inForce : debugger.mode = some mode) {fewer : Nat}
    (positive : debugger.budget = fewer + 1) (budget : Nat) :
    ∃ count, (pollTimes host (debugger.advance host budget world) count).isOpen = false := by
  induction ends generalizing debugger budget mode with
  | finished ended =>
      rw [Machine.isFinished, ended] at unfinished
      cases unfinished
  | @step machine world awake rest ih =>
      subst same
      have once (left : Nat) :
          ∃ count,
            (pollTimes host (debugger.advance host (left + 1) world) count).isOpen = false := by
        have next := rest world (refl world)
        have first : debugger.advance host 1 world = _ := advance_one inForce world
        rw [advance_succ]
        have stays : (debugger.machine.stepOnce host world).machine.Coherent :=
          Machine.step_coherent (World.poll host) coherent world
        cases (debugger.machine.stepOnce host world).outcome stays with
        | failed failed =>
            rw [conclude_failed failed] at first
            refine ⟨0, ?_⟩
            simp only [pollTimes, first, reportEnd_result, DebugTurn.isOpen]
        | ended fine finished =>
            rw [conclude_finished fine finished] at first
            refine ⟨0, ?_⟩
            simp only [pollTimes, first, reportEnd_result, DebugTurn.isOpen]
        | asleep fine waits => exact absurd waits.status next.awake
        | goesOn fine unfinished awake =>
            rw [conclude_goesOn fine unfinished awake] at first
            split at first
            · refine ⟨0, ?_⟩
              simp only [pollTimes, first, Debugger.rest, DebugTurn.isOpen]
            · rw [first]
              exact @ih world (refl world) { debugger with machine := _ } stays rfl unfinished mode
                inForce positive left
      cases budget with
      | succ budget => exact once budget
      | zero =>
          obtain ⟨count, closed⟩ := once fewer
          refine ⟨count + 1, ?_⟩
          rw [← positive, ← poll_inForce unfinished inForce] at closed
          exact closed

/-- Polls without a step leave the command in force and the machine where it is. -/
theorem pollTimes_stalls (unfinished : debugger.machine.isFinished = false)
    (none : debugger.budget = 0) (world : World σ) (command : StepCommand) (count : Nat) :
    pollTimes host (debugger.issue host world command) count = debugger.begins world command := by
  have issued : debugger.issue host world command = debugger.begins world command := by
    rw [issue_of_unfinished unfinished, none]
    rfl
  have again : (debugger.armed command).poll host world = debugger.begins world command := by
    have inForce : (debugger.armed command).mode = some (debugger.goal command) := rfl
    have budget : (debugger.armed command).budget = 0 := none
    have stays : (debugger.armed command).machine.isFinished = false := unfinished
    rw [poll_inForce stays inForce, budget]
    rfl
  rw [issued]
  induction count with
  | zero => rfl
  | succ count ih =>
      rw [← again] at ih
      exact ih.trans again

end Debugger

namespace Interpreter

/-- Where the machine of a run has got to after that many bursts. -/
def lastTurn (host : Host σ) (fuel : Nat) (code : Code) (world : World σ) : Turn σ :=
  let world := host.notify .started world
  (spawn code world).drive host (host.notify .yielded) fuel world

/-- A run that has returned does not depend on the number of bursts that it was allowed. -/
theorem run_congr {host : Host σ} {code : Code} {world : World σ} {fuel other : Nat}
    (same : lastTurn host fuel code world = lastTurn host other code world) :
    run host fuel code world = run host other code world := by
  unfold lastTurn at same
  dsimp only at same
  unfold run
  dsimp only
  rw [same]

end Interpreter

/-- Every loop of bursts moves the program on, and so comes to an end with it. -/
structure Progresses (host : Host σ) (code : Code) (world : World σ) : Prop where
  /-- A burst is a number of steps, at least one. -/
  burst : ∀ (machine : Machine) (later : World σ), later.limits = world.limits →
    ∃ count, 1 ≤ count ∧ count ≤ world.limits.burstCycles ∧
      (machine.burst host later).patient = (Machine.stepped host machine later count).patient
  /-- Enough bursts bring the machine of the program to its end. -/
  completes : ∃ enough, ∀ fuel, enough ≤ fuel →
    ((Interpreter.spawn code world).runToCompletion host fuel world).machine.isFinished = true
  /-- A run of the interpreter returns. -/
  returns : ∃ enough outcome, ∀ fuel, enough ≤ fuel →
    (Interpreter.lastTurn host fuel code world).machine.isFinished = true ∧
      Interpreter.run host fuel code world = outcome
  /-- Polls bring every command of a debugger to its end. -/
  answers : ∀ command, ∃ count,
    let debugger := Debugger.start (Interpreter.spawn code world) world
    (Debugger.pollTimes host (debugger.issue host world command) count).isOpen = false

/-- No loop of bursts ever moves the program. -/
structure Stalls (host : Host σ) (code : Code) (world : World σ) : Prop where
  burst : ∀ (machine : Machine) (later : World σ), later.limits = world.limits →
    machine.burst host later = { machine, world := later }
  completes : ∀ fuel,
    ((Interpreter.spawn code world).runToCompletion host fuel world).machine.isFinished = false
  returns : ∀ fuel, (Interpreter.lastTurn host fuel code world).machine.isFinished = false
  answers : ∀ command count,
    let debugger := Debugger.start (Interpreter.spawn code world) world
    let turn := Debugger.pollTimes host (debugger.issue host world command) count
    turn.result = .ok .running ∧ turn.debugger.machine = debugger.machine

section

variable {host : Host σ} {outside : World σ → World σ → Prop} {code : Code} {world : World σ}

theorem progresses_of_ends (keeps : host.Keeps SameLimits) (interjects : host.Interjects outside)
    (ends : (Interpreter.spawn code world).Ends host outside world)
    (positive : 1 ≤ world.limits.burstCycles) : Progresses host code world := by
  refine ⟨fun machine later same => ?_, ?_, ?_, fun command => ?_⟩
  · obtain ⟨count, some, few, steps⟩ :=
      @Machine.cycles_stepped σ host later.limits.burstCycles machine later
    rw [same] at some few
    exact ⟨count, some positive, few, steps⟩
  · obtain ⟨enough, finishes⟩ := ends.drive keeps interjects interjects.refl positive
      (interjects.refl world)
    exact ⟨enough, fun fuel many => decide_eq_true (finishes fuel many)⟩
  · have told := interjects.notify .started world
    obtain ⟨enough, finishes⟩ := ends.drive keeps interjects (interjects.notify .yielded) positive
      told
    have same : Interpreter.spawn code (host.notify .started world) =
        Interpreter.spawn code world := by
      rw [Interpreter.spawn, Interpreter.spawn, interjects.globals told]
    rw [← same] at finishes
    refine ⟨enough, Interpreter.run host enough code world, fun fuel many => ⟨?_, ?_⟩⟩
    · exact decide_eq_true (finishes fuel many)
    · obtain ⟨more, rfl⟩ := Nat.exists_eq_add_of_le many
      exact Interpreter.run_congr (Machine.drive_stable (finishes enough (Nat.le_refl _)) more)
  · dsimp only
    obtain ⟨fewer, budget⟩ : ∃ fewer, world.limits.burstCycles = fewer + 1 :=
      ⟨_, (Nat.sub_add_cancel positive).symm⟩
    have unfinished : (Debugger.start (Interpreter.spawn code world) world).machine.isFinished =
      false := rfl
    rw [Debugger.issue_of_unfinished unfinished]
    exact Debugger.pollTimes_closes interjects.refl ends
      (Machine.start_coherent _ _) rfl rfl rfl budget _

theorem stalls_of_no_cycles (same : ∀ notice world, SameLimits world (host.notify notice world))
    (none : world.limits.burstCycles = 0) : Stalls host code world := by
  refine ⟨fun machine later limits => ?_, fun fuel => ?_, fun fuel => ?_, fun command count => ?_⟩
  · rw [Machine.burst, limits, none]
    rfl
  · have stays : ((Interpreter.spawn code world).drive host id fuel world).machine =
        Interpreter.spawn code world :=
      Machine.drive_stalls Status.noConfusion rfl (fun _ => rfl) none fuel
    rw [Machine.runToCompletion, stays]
    rfl
  · have again : (host.notify .started world).limits.burstCycles = 0 := by
      rw [same .started world, none]
    have stays : (Interpreter.lastTurn host fuel code world).machine =
        Interpreter.spawn code (host.notify .started world) :=
      Machine.drive_stalls Status.noConfusion rfl (same .yielded) again fuel
    rw [stays]
    rfl
  · dsimp only
    rw [Debugger.pollTimes_stalls rfl none]
    exact ⟨rfl, rfl⟩

/-- A program that single steps bring to its end comes to an end however it is driven in bursts,
unless bursts have no cycle; then no loop of bursts moves it at all. -/
theorem loops_end_unless_bursts_are_empty (keeps : host.Keeps SameLimits)
    (interjects : host.Interjects outside)
    (ends : (Interpreter.spawn code world).Ends host outside world) :
    (world.limits.burstCycles ≠ 0 → Progresses host code world) ∧
      (world.limits.burstCycles = 0 → Stalls host code world) := by
  refine ⟨fun some => ?_, fun none => ?_⟩
  · exact progresses_of_ends keeps interjects ends (Nat.one_le_iff_ne_zero.mpr some)
  · exact stalls_of_no_cycles
      (fun notice world => interjects.limits (interjects.notify notice world))
      none

end

theorem Host.silent_interjects : (Host.silent : Host σ).Interjects Eq where
  refl _ := rfl
  notify _ _ := rfl
  limits same := same ▸ rfl
  globals same := same ▸ rfl

/-- Two steps bring the program to its end. -/
theorem Code.yieldOnce_ends :
    (Interpreter.spawn .yieldOnce (World.initial { burstCycles := 1 } ())).Ends .silent Eq
      (World.initial { burstCycles := 1 } ()) := by
  have ended : (Machine.stepped .silent
      (Interpreter.spawn .yieldOnce (World.initial { burstCycles := 1 } ()))
      (World.initial { burstCycles := 1 } ()) 2).machine.isFinished = true := rfl
  refine .ofStepped (fun fewer few => ?_) (of_decide_eq_true ended)
  match fewer, few with
  | 0, _ => nofun
  | 1, _ => nofun
  | 2, _ => nofun

/-- One cycle in a burst is enough. -/
theorem yieldOnce_progresses :
    Progresses .silent .yieldOnce (World.initial { burstCycles := 1 } ()) :=
  (loops_end_unless_bursts_are_empty (Host.silent_keeps fun _ => rfl) Host.silent_interjects
    Code.yieldOnce_ends).1 (by decide)

/-- Limits that are accepted, with a program that two steps bring to its end, and that no loop of
bursts brings there. -/
theorem accepted_limits_stall :
    ∃ limits, Limits.ofJson? (.object [("burst_cycles", .number "0")]) = some limits ∧
      let world := World.initial limits ()
      let machine := Interpreter.spawn .yieldOnce world
      (Machine.stepped .silent machine world 2).machine.isFinished = true ∧
        (∀ fewer ≤ 2, (Machine.stepped .silent machine world fewer).machine.wait? = none) ∧
        Stalls .silent .yieldOnce world := by
  refine ⟨{ burstCycles := 0 }, ?_, rfl, ?_, ?_⟩
  · have zero : (Json.number "0").toNat? = some 0 := Nat.toNat?_repr 0
    rw [Limits.ofJson?, Limits.readFields]
    simp [Limits.Field.ofName?, zero, Limits.assign, UInt64.size, Limits.readFields]
  · intro fewer few
    match fewer, few with
    | 0, _ => rfl
    | 1, _ => rfl
    | 2, _ => rfl
  · exact stalls_of_no_cycles (fun _ _ => rfl) rfl

end MiniScript
