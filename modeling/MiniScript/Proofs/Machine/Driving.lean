import MiniScript.Proofs.Machine.Returning
import MiniScript.Proofs.World.Alike

/-!
# Driving a machine

A machine that never waits is driven step by step, whoever drives it: where it has
got to shows only in how many instructions have been executed. Any number of
cycles, which a `yield` may cut short, and bursts to the end are such sequences of
steps.
-/

namespace MiniScript

variable {σ ν : Type}

open World

namespace Machine

variable {host : Host σ} {view : σ → ν} {world other : World σ} {machine again : Machine}

/-- The machines are at the same place, with the same loops and operands. -/
structure SamePlace (machine other : Machine) : Prop where
  frame : other.frame = machine.frame
  callers : other.callers = machine.callers
  stack : other.stack = machine.stack

theorem SamePlace.refl (machine : Machine) : machine.SamePlace machine :=
  ⟨rfl, rfl, rfl⟩

theorem SamePlace.symm (same : machine.SamePlace again) : again.SamePlace machine :=
  ⟨same.frame.symm, same.callers.symm, same.stack.symm⟩

theorem SamePlace.trans {third : Machine} (first : machine.SamePlace again)
    (second : again.SamePlace third) : machine.SamePlace third :=
  ⟨second.frame.trans first.frame, second.callers.trans first.callers,
    second.stack.trans first.stack⟩

/-- The machine as it executes its next instruction. -/
def executing (machine : Machine) : Machine :=
  { machine with status := .running, wait? := none }.begun

theorem SamePlace.executing (same : machine.SamePlace again) :
    again.executing = machine.executing := by
  simp only [Machine.executing, begun, same.frame, same.callers, same.stack]

/-- Between two steps a machine does not wait. It ends where its code has run out, and nothing is
left there. -/
structure Awake (machine : Machine) : Prop where
  awake : machine.status ≠ .suspended
  wait : machine.wait? = none
  finished : machine.status = .finished → machine.frame.isDone = true
  done : machine.frame.isDone = true → machine.callers = [] ∧ machine.stack = []

theorem start_awake (code : Code) (scope : ScopeRef) : (start code scope).Awake where
  awake := nofun
  wait := rfl
  finished ended := nomatch ended
  done _ := ⟨rfl, rfl⟩

theorem halted_awake (machine : Machine) : machine.halted.Awake where
  awake := nofun
  wait := rfl
  finished _ := machine.outermost.isDone_abandoned
  done _ := ⟨rfl, rfl⟩

theorem settle_awake (running : machine.status = .running) (free : machine.wait? = none)
    (world : World σ) : (machine.settle world).machine.Awake := by
  have spec := unwind_spec machine.frame machine.callers machine.stack
  unfold settle
  generalize unwind machine.frame machine.callers machine.stack = unwound at spec
  obtain ⟨frame, callers, stack⟩ := unwound
  obtain ⟨_, _, last⟩ := spec
  dsimp only
  split
  · rename_i isDone
    split
    · rename_i empty
      exact ⟨nofun, free, fun _ => isDone, fun _ => ⟨last isDone, List.isEmpty_iff.mp empty⟩⟩
    · exact halted_awake _
  · rename_i unfinished
    refine ⟨running ▸ nofun, free, fun ended => ?_, fun isDone => absurd isDone unfinished⟩
    exact nomatch running.symm.trans ended

theorem executing_of_free (free : machine.wait? = none) :
    { machine with status := .running }.begun = machine.executing := by
  rw [executing, ← free]

/-- How many instructions the next step executes: none if the machine waits or its code has run
out. -/
def due (machine : Machine) : Nat :=
  match machine.status with
  | .ready | .running => if machine.frame.isDone then 0 else 1
  | _ => 0

theorem Awake.cases (awake : machine.Awake) :
    machine.status = .finished ∨ machine.status = .ready ∨ machine.status = .running := by
  cases status : machine.status with
  | finished => exact Or.inl rfl
  | ready => exact Or.inr (Or.inl rfl)
  | running => exact Or.inr (Or.inr rfl)
  | suspended => exact absurd status awake.awake

theorem due_of_done (isDone : machine.frame.isDone = true) : machine.due = 0 := by
  unfold due
  rw [isDone]
  split
  · rfl
  · rfl
  · rfl

theorem Awake.active (awake : machine.Awake) (unfinished : machine.frame.isDone = false) :
    machine.status = .ready ∨ machine.status = .running := by
  rcases awake.cases with finished | active
  · cases unfinished.symm.trans (awake.finished finished)
  · exact active

theorem Awake.due_of_not_done (awake : machine.Awake) (unfinished : machine.frame.isDone = false) :
    machine.due = 1 := by
  unfold due
  rw [unfinished]
  rcases awake.active unfinished with status | status
  · rw [status]
    rfl
  · rw [status]
    rfl

/-- Where the code has run out, a step changes nothing but the status. -/
theorem Awake.step_of_done (awake : machine.Awake) (isDone : machine.frame.isDone = true)
    (poll : Poller σ) (world : World σ) :
    machine.step host poll world = { machine := { machine with status := .finished }, world } := by
  obtain ⟨frame, callers, stack, status, wait?, yields, native⟩ := machine
  obtain ⟨rfl, rfl⟩ := awake.done isDone
  have ends : settle ⟨frame, [], [], .running, wait?, yields, native⟩ world =
      { machine := ⟨frame, [], [], .finished, wait?, yields, native⟩, world } := by
    simp only [settle, unwind, isDone, if_true, List.isEmpty_nil]
  rcases awake.cases with rfl | rfl | rfl
  · rfl
  · simp only [step, ends]
    rfl
  · simp only [step, ends]
    rfl

/-- Elsewhere it executes an instruction. -/
theorem Awake.step_of_not_done (awake : machine.Awake)
    (unfinished : machine.frame.isDone = false) (poll : Poller σ) (world : World σ) :
    machine.step host poll world = { machine with status := .running }.advance host world :=
  Machine.step_of_not_done host poll (awake.active unfinished) unfinished world

/-- The next instruction calls no function that reads the clock or imports a module. -/
def AvoidsClock (machine : Machine) (world : World σ) : Prop :=
  ∀ instr, machine.frame.code.instrs[machine.position]? = some instr →
    machine.executing.PromptAt machine.position instr world

theorem AvoidsClock.promptAt (avoids : machine.AvoidsClock world) {instr : Instr}
    (found : machine.frame.code.instrs[machine.position]? = some instr) (nanoseconds : Nat) :
    machine.executing.PromptAt machine.position instr (world.pass nanoseconds) := by
  intro action planned
  have alike : Alike (fun _ => ()) world (world.pass nanoseconds) :=
    ⟨_, world.limits.burstCycles, world.host, rfl, rfl⟩
  rw [plan_alike alike] at planned
  exact avoids instr found action planned

theorem AvoidsClock.transfer (avoids : machine.AvoidsClock world) (same : machine.SamePlace again)
    (alike : Alike view world other) : again.AvoidsClock other := by
  intro instr found action planned
  rw [same.executing, position, same.frame, plan_alike alike] at planned
  rw [position, same.frame] at found
  rw [alike.heap]
  exact avoids instr found action planned

end Machine

/-- The turns have come to the same place with the same error, in worlds that are alike. -/
structure Turn.Agrees (view : σ → ν) (turn other : Turn σ) : Prop where
  place : turn.machine.SamePlace other.machine
  world : Alike view turn.world other.world
  error : other.error = turn.error

namespace Turn.Agrees

variable {view : σ → ν} {turn other third : Turn σ}

theorem refl (turn : Turn σ) : turn.Agrees view turn :=
  ⟨.refl _, .refl _, rfl⟩

theorem symm (agrees : turn.Agrees view other) : other.Agrees view turn :=
  ⟨agrees.place.symm, agrees.world.symm, agrees.error.symm⟩

theorem trans (first : turn.Agrees view other) (second : other.Agrees view third) :
    turn.Agrees view third :=
  ⟨first.place.trans second.place, first.world.trans second.world,
    second.error.trans first.error⟩

end Turn.Agrees

namespace Machine

variable {host : Host σ} {view : σ → ν} {world other : World σ} {machine again : Machine}

/-- An error ends the machine. -/
theorem settle_ended (machine : Machine) (world : World σ)
    (failed : (machine.settle world).error ≠ none) :
    (machine.settle world).machine.status = .finished := by
  unfold settle at failed ⊢
  dsimp only at failed ⊢
  split
  · split
    · rfl
    · rfl
  · rename_i unfinished
    rw [if_neg unfinished] at failed
    exact absurd rfl failed

theorem settle_agrees (free : machine.wait? = none) (alike : Alike view world other) :
    (machine.settle world).Agrees view (machine.settle other) := by
  unfold settle
  dsimp only
  split
  · split
    · exact ⟨.refl _, alike, rfl⟩
    · simp only [abort_of_no_wait, free]
      exact ⟨.refl _, alike, rfl⟩
  · exact ⟨.refl _, alike, rfl⟩

/-- What one instruction that answers at once makes of a machine. -/
structure GoesOn (turn : Turn σ) : Prop where
  awake : turn.machine.Awake
  ended : turn.error ≠ none → turn.machine.status = .finished

theorem advance_goesOn (prompt : host.Prompt view) (running : machine.status = .running)
    (free : machine.wait? = none) (avoids : machine.AvoidsClock world) :
    GoesOn (machine.advance host world) := by
  have same : machine.executing = machine.begun := by rw [executing, ← running, ← free]
  rw [advance_eq]
  split
  · exact ⟨halted_awake _, fun _ => rfl⟩
  · rename_i instr found
    have status : Ensures (fun next => next.status = machine.begun.status)
        (machine.begun.execute host machine.position instr (world.pass 1000)).1 := by
      rw [← same]
      exact execute_status prompt (avoids.promptAt found 1000)
    split
    · rename_i next after executed
      have runs : next.status = .running := by
        refine (status next ?_).trans running
        exact congrArg Prod.fst executed
      have coherent : machine.begun.Coherent := .ofActive ⟨Or.inr running, free⟩
      have awake := ((execute_advances executed).coherent coherent).free (runs ▸ nofun)
      rw [if_pos runs]
      exact ⟨settle_awake runs awake after, settle_ended next after⟩
    · exact ⟨halted_awake _, fun _ => rfl⟩

/-- One instruction, of machines at the same place, in worlds that are alike. -/
theorem advance_agrees (prompt : host.Prompt view) (alike : Alike view world other)
    (running : machine.status = .running) (free : machine.wait? = none)
    (same : machine.SamePlace again) (also : again.status = .running)
    (alsoFree : again.wait? = none) (avoids : machine.AvoidsClock world) :
    (machine.advance host world).Agrees view (again.advance host other) := by
  have first : machine.executing = machine.begun := by rw [executing, ← running, ← free]
  have second : again.begun = machine.begun := by
    rw [← first, ← same.executing, executing, ← also, ← alsoFree]
  have released : machine.begun.wait? = none := free
  rw [advance_eq, advance_eq, second, same.frame]
  simp only [abort_of_no_wait released]
  split
  · exact ⟨.refl _, alike, rfl⟩
  · rename_i instr found
    have executed : AlikeOutcome view
        (machine.begun.execute host machine.frame.position instr (world.pass 1000))
        (machine.begun.execute host machine.frame.position instr (other.pass 1000)) := by
      rw [← first]
      exact execute_alike prompt (alike.pass 1000 1000) (avoids.promptAt found 1000)
    have coherent : machine.begun.Coherent := .ofActive ⟨Or.inr running, free⟩
    generalize reached :
      machine.begun.execute host machine.frame.position instr (world.pass 1000) = left at executed
    generalize machine.begun.execute host machine.frame.position instr (other.pass 1000) = right
      at executed
    obtain ⟨_, after⟩ := left
    obtain ⟨result, later⟩ := right
    obtain ⟨rfl, alike⟩ := executed
    cases result with
    | ok next =>
        dsimp only
        split
        · rename_i runs
          have awake := ((execute_advances reached).coherent coherent).free (runs ▸ nofun)
          exact settle_agrees awake alike
        · exact ⟨.refl _, alike, rfl⟩
    | error error => exact ⟨.refl _, alike, rfl⟩

/-- The turn that a number of steps leads to; an error ends the sequence. -/
def stepped (host : Host σ) (machine : Machine) (world : World σ) : Nat → Turn σ
  | 0 => { machine, world }
  | count + 1 =>
      let turn := stepped host machine world count
      match turn.error with
      | some _ => turn
      | none => turn.machine.stepOnce host turn.world

/-- The turns that a machine can be driven to, with the number of instructions that have been
executed. In between the request of a `yield` may be dropped, and the world may become another that
is alike: time passes, and the host is told this and that. -/
inductive Driven (host : Host σ) (view : σ → ν) (first : Machine) (initial : World σ) :
    Nat → Turn σ → Prop where
  | start : Driven host view first initial 0 { machine := first, world := initial }
  | step {count : Nat} {machine : Machine} {world : World σ}
      (before : Driven host view first initial count { machine, world }) :
      Driven host view first initial (count + machine.due) (machine.stepOnce host world)
  | yielded {count : Nat} {machine : Machine} {world : World σ} {error : Option ScriptError}
      (before : Driven host view first initial count { machine, world, error }) :
      Driven host view first initial count
        { machine := { machine with yieldRequested := false }, world, error }
  | meanwhile {count : Nat} {machine : Machine} {world after : World σ}
      {error : Option ScriptError}
      (before : Driven host view first initial count { machine, world, error })
      (alike : Alike view world after) :
      Driven host view first initial count { machine, world := after, error }

section

variable {first : Machine} {initial : World σ} (prompt : host.Prompt view) (awake : first.Awake)
variable (avoids : ∀ count, (stepped host first initial count).machine.AvoidsClock
  (stepped host first initial count).world)

include prompt awake avoids

/-- One step of the reference sequence. -/
theorem stepped_goesOn (count : Nat) : GoesOn (stepped host first initial count) := by
  induction count with
  | zero => exact ⟨awake, fun failed => absurd rfl failed⟩
  | succ count ih =>
      have clock := avoids count
      unfold stepped
      dsimp only
      generalize stepped host first initial count = turn at ih clock
      split
      · exact ih
      · cases isDone : turn.machine.frame.isDone with
        | true =>
            rw [stepOnce, ih.awake.step_of_done isDone]
            exact ⟨⟨nofun, ih.awake.wait, fun _ => isDone, ih.awake.done⟩,
              fun failed => absurd rfl failed⟩
        | false =>
            rw [stepOnce, ih.awake.step_of_not_done isDone]
            exact advance_goesOn prompt rfl ih.awake.wait clock

/-- However a machine is driven, it is where the steps lead to that execute as many
instructions. -/
theorem Driven.agrees {count : Nat} {turn : Turn σ}
    (driven : Driven host view first initial count turn) :
    GoesOn turn ∧ (stepped host first initial count).Agrees view turn := by
  induction driven with
  | start => exact ⟨⟨awake, fun failed => absurd rfl failed⟩, .refl _⟩
  | @step count machine world before ih =>
      obtain ⟨goesOn, place, alike, error⟩ := ih
      cases isDone : machine.frame.isDone with
      | true =>
          rw [due_of_done isDone, stepOnce, goesOn.awake.step_of_done isDone]
          refine ⟨⟨⟨nofun, goesOn.awake.wait, fun _ => isDone, goesOn.awake.done⟩,
            fun failed => absurd rfl failed⟩, ?_⟩
          exact ⟨⟨place.frame, place.callers, place.stack⟩, alike, error⟩
      | false =>
          have reference := (stepped_goesOn prompt awake avoids count).awake
          have clock := avoids count
          have next : stepped host first initial (count + 1) =
              (stepped host first initial count).machine.stepOnce host
                (stepped host first initial count).world := by
            rw [stepped, ← error]
          generalize stepped host first initial count = turn at place alike reference clock next
          have here : machine.AvoidsClock world := clock.transfer place alike
          rw [goesOn.awake.due_of_not_done isDone, next, stepOnce, stepOnce,
            goesOn.awake.step_of_not_done isDone,
            reference.step_of_not_done (place.frame ▸ isDone)]
          refine ⟨advance_goesOn prompt rfl goesOn.awake.wait here, ?_⟩
          exact advance_agrees prompt alike rfl reference.wait
            ⟨place.frame, place.callers, place.stack⟩ rfl goesOn.awake.wait clock
  | yielded before ih =>
      obtain ⟨goesOn, place, alike, error⟩ := ih
      exact ⟨⟨⟨goesOn.awake.awake, goesOn.awake.wait, goesOn.awake.finished, goesOn.awake.done⟩,
        goesOn.ended⟩,
        ⟨place.frame, place.callers, place.stack⟩, alike, error⟩
  | meanwhile before alike ih =>
      obtain ⟨goesOn, agrees⟩ := ih
      exact ⟨⟨goesOn.awake, goesOn.ended⟩, agrees.place, agrees.world.trans alike, agrees.error⟩

/-- Once the code has run out, nothing more is executed. -/
theorem Driven.count_le {count last : Nat} {turn : Turn σ}
    (driven : Driven host view first initial count turn)
    (isDone : (stepped host first initial last).machine.frame.isDone = true) : count ≤ last := by
  induction driven with
  | start => exact Nat.zero_le _
  | @step count machine world before ih =>
      obtain ⟨goesOn, agrees⟩ := before.agrees prompt awake avoids
      cases here : machine.frame.isDone with
      | true =>
          rw [due_of_done here]
          exact ih
      | false =>
          rw [goesOn.awake.due_of_not_done here]
          refine Nat.lt_of_le_of_ne ih ?_
          rintro rfl
          rw [← agrees.place.frame] at isDone
          cases here.symm.trans isDone
  | yielded before ih => exact ih
  | meanwhile before alike ih => exact ih

/-- Turns at which the machine has ended agree. -/
theorem Driven.ended_agrees {count last : Nat} {turn other : Turn σ}
    (driven : Driven host view first initial count turn)
    (again : Driven host view first initial last other)
    (ended : turn.machine.status = .finished) (also : other.machine.status = .finished) :
    turn.Agrees view other := by
  obtain ⟨goesOn, agrees⟩ := driven.agrees prompt awake avoids
  obtain ⟨alsoGoesOn, alsoAgrees⟩ := again.agrees prompt awake avoids
  have isDone := goesOn.awake.finished ended
  have alsoDone := alsoGoesOn.awake.finished also
  rw [agrees.place.frame] at isDone
  rw [alsoAgrees.place.frame] at alsoDone
  obtain rfl : count = last := Nat.le_antisymm (driven.count_le prompt awake avoids alsoDone)
    (again.count_le prompt awake avoids isDone)
  exact agrees.symm.trans alsoAgrees

/-- A number of steps at once. -/
theorem Driven.cycles {count : Nat} {machine : Machine} {world : World σ}
    (driven : Driven host view first initial count { machine, world }) (budget : Nat) :
    ∃ more, Driven host view first initial (count + more) (machine.cycles host budget world) ∧
      (budget = 0 ∨ 1 ≤ more ∨ (machine.cycles host budget world).machine.status = .finished) := by
  induction budget generalizing count machine world with
  | zero => exact ⟨0, driven, Or.inl rfl⟩
  | succ budget ih =>
      have after := driven.step
      have goesOn := (after.agrees prompt awake avoids).1
      have progress : 1 ≤ machine.due ∨
          (machine.stepOnce host world).machine.status = .finished := by
        have before := (driven.agrees prompt awake avoids).1.awake
        cases isDone : machine.frame.isDone with
        | true =>
            rw [stepOnce, before.step_of_done isDone]
            exact Or.inr rfl
        | false =>
            rw [before.due_of_not_done isDone]
            exact Or.inl (Nat.le_refl _)
      unfold Machine.cycles runCycles
      dsimp only
      rw [← stepOnce]
      generalize machine.stepOnce host world = turn at after goesOn progress
      obtain ⟨next, later, error⟩ := turn
      dsimp only at goesOn progress ⊢
      split
      · rename_i running
        have noError : error = none := by
          cases error with
          | none => rfl
          | some error => cases running.symm.trans (goesOn.ended (Option.some_ne_none _))
        have some : 1 ≤ machine.due := by
          rcases progress with some | finished
          · exact some
          · cases running.symm.trans finished
        subst noError
        split
        · exact ⟨machine.due, after.yielded, Or.inr (Or.inl some)⟩
        · obtain ⟨more, driven, _⟩ := ih after
          refine ⟨machine.due + more, ?_, Or.inr (Or.inl (Nat.le_add_right_of_le some))⟩
          rw [← Nat.add_assoc]
          exact driven
      · exact ⟨machine.due, after, Or.inr progress⟩

/-- Bursts to the end. Enough of them do end the machine, since each executes an instruction. -/
theorem Driven.drive {count : Nat} {machine : Machine} {world : World σ}
    (driven : Driven host view first initial count { machine, world })
    {between : World σ → World σ} (told : ∀ world, Alike view world (between world))
    (same : ∀ world, SameLimits world (between world)) (fuel : Nat) :
    ∃ more, Driven host view first initial (count + more) (machine.drive host between fuel world) ∧
      (1 ≤ world.limits.burstCycles →
        fuel ≤ more ∨ (machine.drive host between fuel world).machine.status = .finished) := by
  induction fuel generalizing count machine world with
  | zero => exact ⟨0, driven, fun _ => Or.inl (Nat.le_refl _)⟩
  | succ fuel ih =>
      obtain ⟨more, burst, progress⟩ := driven.cycles prompt awake avoids world.limits.burstCycles
      have goesOn := (burst.agrees prompt awake avoids).1
      have limits : SameLimits world (machine.cycles host world.limits.burstCycles world).world :=
        (becomes_runCycles becomes_poll _ machine world).sameLimits prompt.limits
      unfold Machine.drive
      dsimp only
      rw [Machine.burst]
      generalize machine.cycles host world.limits.burstCycles world = turn
        at burst progress goesOn limits
      obtain ⟨next, later, error⟩ := turn
      dsimp only at goesOn progress limits ⊢
      split
      · rename_i finished
        exact ⟨more, burst, fun _ => Or.inr finished⟩
      · rename_i suspended
        exact absurd suspended goesOn.awake.awake
      · rename_i unfinished _
        have noError : error = none := by
          cases error with
          | none => rfl
          | some error => exact absurd (goesOn.ended (Option.some_ne_none _)) unfinished
        subst noError
        obtain ⟨rest, driven, ends⟩ := ih (burst.meanwhile (told later))
        rw [same later, limits] at ends
        refine ⟨more + rest, ?_, fun some => ?_⟩
        · rw [← Nat.add_assoc]
          exact driven
        · have executed : 1 ≤ more := by
            rcases progress with none | executed | finished
            · omega
            · exact executed
            · exact absurd finished unfinished
          exact (ends some).imp_left (by omega)

/-- Enough bursts, in a world that is alike, end where the machine has been seen to end. -/
theorem Driven.drive_completes {count : Nat} {turn : Turn σ}
    (driven : Driven host view first initial count turn) (ended : turn.machine.status = .finished)
    {world : World σ} (alike : Alike view initial world) (some : 1 ≤ world.limits.burstCycles)
    {between : World σ → World σ} (told : ∀ world, Alike view world (between world))
    (same : ∀ world, SameLimits world (between world)) {fuel : Nat} (enough : count < fuel) :
    (first.drive host between fuel world).machine.status = .finished ∧
      turn.Agrees view (first.drive host between fuel world) := by
  obtain ⟨more, drives, ends⟩ := (Driven.start.meanwhile alike).drive prompt awake avoids told same
    fuel
  rcases ends some with long | finished
  · obtain ⟨goesOn, agrees⟩ := driven.agrees prompt awake avoids
    have isDone := goesOn.awake.finished ended
    rw [agrees.place.frame] at isDone
    have short := drives.count_le prompt awake avoids isDone
    omega
  · exact ⟨finished, driven.ended_agrees prompt awake avoids drives ended finished⟩

end

end Machine

end MiniScript
