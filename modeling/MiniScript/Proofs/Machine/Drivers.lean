import MiniScript.Interpreter
import MiniScript.Debugger
import MiniScript.Proofs.Machine.Driving

/-!
# All drivers lead to the same place

A program whose natives answer at once can be driven by single steps, by any numbers
of cycles, in bursts of any length, by the commands of a debugger, or be run to its
end. Whatever the mix, after as many instructions it has come to the same place and
has changed the world in the same way, so it ends in the same way too.
-/

namespace MiniScript

variable {σ ν : Type}

open World

/-- The error that a command of a debugger reports. -/
def DebugTurn.error? (turn : DebugTurn σ) : Option ScriptError :=
  match turn.result with
  | .ok _ => none
  | .error error => some error

/-- The machine, the world and the error that a command of a debugger leads to. -/
def DebugTurn.turn (turn : DebugTurn σ) : Turn σ :=
  { machine := turn.debugger.machine, world := turn.world, error := turn.error? }

/-- What can be asked of a debugger and of the machine in it. -/
inductive Command where
  | step
  | cycles (budget : Nat)
  | burst
  /-- To the end, in at most that many bursts. -/
  | complete (fuel : Nat)
  | stepOver
  | stepInto
  | stepOut
  | poll
  /-- Later commands may take that many steps. -/
  | budget (steps : Nat)
  /-- Time passes. -/
  | idle (nanoseconds : Nat)

/-- A debugger in its world, and the error that has ended the program. -/
structure Bench (σ : Type) where
  debugger : Debugger
  world : World σ
  error : Option ScriptError := none

namespace Bench

/-- Where the machine has got to. -/
def turn (bench : Bench σ) : Turn σ :=
  { machine := bench.debugger.machine, world := bench.world, error := bench.error }

/-- The debugger has been told something. -/
def ofDebug (turn : DebugTurn σ) : Bench σ :=
  { debugger := turn.debugger, world := turn.world, error := turn.error? }

/-- The machine in the debugger has been driven by hand. -/
def ofTurn (debugger : Debugger) (turn : Turn σ) : Bench σ :=
  { debugger := { debugger with machine := turn.machine },
    world := turn.world, error := turn.error }

def obey (host : Host σ) (debugger : Debugger) (world : World σ) : Command → Bench σ
  | .step => ofTurn debugger (debugger.machine.stepOnce host world)
  | .cycles budget => ofTurn debugger (debugger.machine.cycles host budget world)
  | .burst => ofTurn debugger (debugger.machine.burst host world)
  | .complete fuel => ofTurn debugger (debugger.machine.runToCompletion host fuel world)
  | .stepOver => ofDebug (debugger.stepOver host world)
  | .stepInto => ofDebug (debugger.stepInto host world)
  | .stepOut => ofDebug (debugger.stepOut host world)
  | .poll => ofDebug (debugger.poll host world)
  | .budget steps => { debugger := debugger.withBudget steps, world }
  | .idle nanoseconds => { debugger, world := world.pass nanoseconds }

/-- Any mix of commands, until an error ends the program. -/
def obeyAll (host : Host σ) (debugger : Debugger) (world : World σ) : List Command → Bench σ
  | [] => { debugger, world }
  | command :: rest =>
      let bench := obey host debugger world command
      match bench.error with
      | some _ => bench
      | none => obeyAll host bench.debugger bench.world rest

end Bench

namespace Debugger

open Machine

variable {host : Host σ} {view : σ → ν} {first : Machine} {initial : World σ}
variable (prompt : host.Prompt view) (awake : first.Awake)
variable (avoids : ∀ count, (stepped host first initial count).machine.AvoidsClock
  (stepped host first initial count).world)

section

include prompt

theorem reportEnd_driven {count : Nat} {debugger : Debugger} {world : World σ}
    {result : Except ScriptError StepStatus}
    (driven : Driven host view first initial count (DebugTurn.turn { debugger, world, result })) :
    Driven host view first initial count (debugger.reportEnd host world result).turn := by
  unfold reportEnd
  split
  · exact driven
  · exact driven.meanwhile (prompt.notify .debuggeeFinished world)

theorem rest_driven {count : Nat} {debugger : Debugger} {world : World σ}
    (driven : Driven host view first initial count { machine := debugger.machine, world }) :
    Driven host view first initial count (debugger.rest host world).turn := by
  unfold rest DebugTurn.turn
  dsimp only [DebugTurn.error?]
  split
  · rename_i location _
    exact driven.meanwhile (prompt.notify (.reached location) world)
  · exact driven

end

section

include prompt awake avoids

/-- A command of a debugger, with any number of steps. -/
theorem advance_driven (budget : Nat) {count : Nat} {debugger : Debugger} {world : World σ}
    (driven : Driven host view first initial count { machine := debugger.machine, world }) :
    ∃ more, Driven host view first initial (count + more)
      (debugger.advance host budget world).turn := by
  induction budget generalizing count debugger world with
  | zero => exact ⟨0, driven⟩
  | succ budget ih =>
      have after := driven.step
      have goesOn := (after.agrees prompt awake avoids).1
      unfold advance
      dsimp only
      split
      · exact ⟨0, driven⟩
      · generalize debugger.machine.stepOnce host world = turn at after goesOn
        obtain ⟨next, later, error⟩ := turn
        dsimp only at goesOn ⊢
        split
        · exact ⟨_, reportEnd_driven prompt after⟩
        · exact ⟨_, reportEnd_driven prompt after⟩
        · exact ⟨_, after⟩
        · split
          · exact ⟨_, rest_driven prompt after⟩
          · obtain ⟨more, driven⟩ := @ih _ { debugger with machine := next } later after
            rw [Nat.add_assoc] at driven
            exact ⟨_, driven⟩

theorem arm_driven (mode : StepMode) {count : Nat} {debugger : Debugger} {world : World σ}
    (driven : Driven host view first initial count { machine := debugger.machine, world }) :
    ∃ more, Driven host view first initial (count + more) (debugger.arm host mode world).turn := by
  unfold arm
  split
  · exact ⟨0, reportEnd_driven prompt driven⟩
  · exact advance_driven prompt awake avoids debugger.budget driven

theorem obey_driven (command : Command) {count : Nat} {debugger : Debugger} {world : World σ}
    (driven : Driven host view first initial count { machine := debugger.machine, world }) :
    ∃ more, Driven host view first initial (count + more)
      (Bench.obey host debugger world command).turn := by
  cases command with
  | step => exact ⟨_, driven.step⟩
  | cycles budget =>
      obtain ⟨more, driven, _⟩ := driven.cycles prompt awake avoids budget
      exact ⟨more, driven⟩
  | burst =>
      obtain ⟨more, driven, _⟩ := driven.cycles prompt awake avoids world.limits.burstCycles
      exact ⟨more, driven⟩
  | complete fuel =>
      obtain ⟨more, driven, _⟩ := driven.drive prompt awake avoids .refl (fun _ => rfl) fuel
      exact ⟨more, driven⟩
  | stepOver => exact arm_driven prompt awake avoids _ driven
  | stepInto =>
      unfold Bench.obey stepInto
      dsimp only
      split
      · exact arm_driven prompt awake avoids _ driven
      · exact arm_driven prompt awake avoids _ driven
  | stepOut => exact arm_driven prompt awake avoids _ driven
  | poll =>
      unfold Bench.obey poll
      dsimp only
      split
      · exact ⟨0, reportEnd_driven prompt driven⟩
      · split
        · exact ⟨0, driven⟩
        · exact advance_driven prompt awake avoids debugger.budget driven
  | budget steps => exact ⟨0, driven⟩
  | idle nanoseconds =>
      exact ⟨0, driven.meanwhile ⟨_, world.limits.burstCycles, world.host, rfl, rfl⟩⟩

theorem obeyAll_driven (commands : List Command) {count : Nat} {debugger : Debugger}
    {world : World σ}
    (driven : Driven host view first initial count { machine := debugger.machine, world }) :
    ∃ more, Driven host view first initial (count + more)
      (Bench.obeyAll host debugger world commands).turn := by
  induction commands generalizing count debugger world with
  | nil => exact ⟨0, driven⟩
  | cons command rest ih =>
      obtain ⟨more, obeyed⟩ := obey_driven prompt awake avoids command driven
      unfold Bench.obeyAll
      dsimp only
      split
      · exact ⟨more, obeyed⟩
      · rename_i noError
        rw [Bench.turn, noError] at obeyed
        obtain ⟨others, driven⟩ := ih obeyed
        rw [Nat.add_assoc] at driven
        exact ⟨_, driven⟩

end

end Debugger

/-- What it means that a program does not notice how it is driven. -/
structure DriverIndependent (host : Host σ) (view : σ → ν) (code : Code) (initial : World σ) :
    Prop where
  /-- After as many instructions the machine is at the same place, in worlds that are alike. -/
  along : ∀ {count : Nat} {turn other : Turn σ},
    Machine.Driven host view (Interpreter.spawn code initial) initial count turn →
      Machine.Driven host view (Interpreter.spawn code initial) initial count other →
        turn.Agrees view other
  /-- Any mix of commands, to any debugger, drives the machine. -/
  mixes : ∀ {count : Nat} {debugger : Debugger} {world : World σ},
    Machine.Driven host view (Interpreter.spawn code initial) initial count
        { machine := debugger.machine, world } →
      ∀ commands, ∃ more,
        Machine.Driven host view (Interpreter.spawn code initial) initial (count + more)
          (Bench.obeyAll host debugger world commands).turn
  /-- At the end there is nothing to tell the drivers apart. -/
  ends : ∀ {count last : Nat} {turn other : Turn σ},
    Machine.Driven host view (Interpreter.spawn code initial) initial count turn →
      Machine.Driven host view (Interpreter.spawn code initial) initial last other →
        turn.machine.isFinished = true → other.machine.isFinished = true → turn.Agrees view other
  /-- If one driver has come to an end, so do enough bursts of any length, with the same error and
  in a world that is alike. -/
  completes : ∀ {count : Nat} {turn : Turn σ},
    Machine.Driven host view (Interpreter.spawn code initial) initial count turn →
      turn.machine.isFinished = true → ∀ {world : World σ}, Alike view initial world →
        1 ≤ world.limits.burstCycles → ∀ {fuel : Nat}, count < fuel →
          let completed := (Interpreter.spawn code world).runToCompletion host fuel world
          let ran := Interpreter.run host fuel code world
          completed.machine.isFinished = true ∧ turn.Agrees view completed ∧
            ran.1 = turn.error ∧ Alike view turn.world ran.2

theorem Interpreter.spawn_alike {view : σ → ν} {initial world : World σ}
    (alike : Alike view initial world) (code : Code) : spawn code world = spawn code initial := by
  rw [spawn, spawn, alike.globals]

/-- A program whose natives answer at once and do not read the clock does not notice how it is
driven. -/
theorem program_is_driver_independent {host : Host σ} {view : σ → ν} (prompt : host.Prompt view)
    {code : Code} {initial : World σ}
    (avoids : ∀ count,
      let turn := Machine.stepped host (Interpreter.spawn code initial) initial count
      turn.machine.AvoidsClock turn.world) :
    DriverIndependent host view code initial := by
  have awake : (Interpreter.spawn code initial).Awake := Machine.start_awake code initial.globals
  refine ⟨?_, ?_, ?_, ?_⟩
  · intro count turn other driven again
    exact (driven.agrees prompt awake avoids).2.symm.trans (again.agrees prompt awake avoids).2
  · intro count debugger world driven commands
    exact Debugger.obeyAll_driven prompt awake avoids commands driven
  · intro count last turn other driven again ended also
    exact driven.ended_agrees prompt awake avoids again (of_decide_eq_true ended)
      (of_decide_eq_true also)
  · intro count turn driven ended world alike some fuel enough
    have finished := of_decide_eq_true ended
    have toldStart : Alike view initial (host.notify .started world) :=
      alike.trans (prompt.notify .started world)
    have again : 1 ≤ (host.notify .started world).limits.burstCycles := by
      rw [prompt.noticed .started world]
      exact some
    have completed := driven.drive_completes prompt awake avoids finished alike some .refl
      (fun _ => rfl) enough
    have ran := driven.drive_completes prompt awake avoids finished toldStart again
      (prompt.notify .yielded) (prompt.noticed .yielded) enough
    rw [← Interpreter.spawn_alike alike code] at completed
    rw [← Interpreter.spawn_alike toldStart code] at ran
    refine ⟨decide_eq_true completed.1, completed.2, ran.2.error, ran.2.world.trans ?_⟩
    unfold Interpreter.run
    dsimp only
    refine Alike.trans ?_ (prompt.notify .finished _)
    split
    · exact prompt.notify _ _
    · exact .refl _

theorem Host.silent_prompt : (Host.silent : Host Unit).Prompt (fun _ => ()) where
  call _ _ alike := ⟨rfl, alike⟩
  intercept _ _ _ alike := ⟨rfl, alike⟩
  ready := by
    rintro _ _ _ _ _ ⟨⟩
    exact ⟨.null, rfl⟩
  notify _ world := .refl world
  limits := Host.silent_keeps fun _ => rfl
  noticed _ _ := rfl

/-- Code that asks to end the burst and then has one more instruction. -/
def Code.yieldOnce : Code where
  instrs := #[{ op := .callVar, first := .name "yield", second := .int 0 }, { op := .pop }]

theorem Code.yieldOnce_avoidsClock (count : Nat) :
    let turn := Machine.stepped .silent (Interpreter.spawn .yieldOnce (World.initial {} ()))
      (World.initial {} ()) count
    turn.machine.AvoidsClock turn.world := by
  have ended (more : Nat) : Machine.stepped .silent (Interpreter.spawn .yieldOnce
      (World.initial {} ())) (World.initial {} ()) (more + 2) =
        Machine.stepped .silent (Interpreter.spawn .yieldOnce (World.initial {} ()))
          (World.initial {} ()) 2 := by
    induction more with
    | zero => rfl
    | succ more ih =>
        rw [Machine.stepped, ih]
        rfl
  rcases count with _ | _ | more
  · rintro turn instr ⟨⟩ action ⟨⟩ body ⟨⟩
    trivial
  · rintro turn instr ⟨⟩ action ⟨⟩
    trivial
  · rw [ended more]
    rintro turn instr ⟨⟩

/-- Five cycles are cut short by the `yield`, which is no matter. -/
theorem yieldOnce_is_driver_independent :
    let machine := Interpreter.spawn .yieldOnce (World.initial {} ())
    (machine.cycles .silent 5 (World.initial {} ())).machine.position = 1 ∧
      DriverIndependent .silent (fun _ => ()) .yieldOnce (World.initial {} ()) :=
  ⟨rfl, program_is_driver_independent Host.silent_prompt Code.yieldOnce_avoidsClock⟩

end MiniScript
