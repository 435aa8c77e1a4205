import Mathlib.Logic.Relation
import MiniScript.Proofs.Machine.Frames

/-!
# Runs of machines

Whoever holds a machine can ask it for a step, a number of steps, a burst, to look
for the result it waits for, to pause, or to stop, in any order; in between, the
world may change from outside. A run is any sequence of these. Several machines that
share a world run in turn; new ones start, and any of them may be dropped.
-/

namespace MiniScript

/-- What can be asked of a machine. -/
inductive Request where
  | step
  | cycles (budget : Nat)
  | burst
  | resume
  | pause
  | stop

namespace Machine

variable {σ : Type} {host : Host σ}

/-- What a machine does when it is asked. -/
def serve (host : Host σ) (machine : Machine) (world : World σ) : Request → Turn σ
  | .step => machine.stepOnce host world
  | .cycles budget => machine.cycles host budget world
  | .burst => machine.burst host world
  | .resume => machine.resume (World.poll host) world
  | .pause => machine.pause world
  | .stop => machine.stop world

open World

theorem becomes_halt (machine : Machine) (world : World σ) :
    Becomes host world (machine.halt world).world :=
  becomes_cancelWait machine world

theorem becomes_pause (machine : Machine) (world : World σ) :
    Becomes host world (machine.pause world).world := by
  unfold pause
  split
  · exact .refl world
  · split
    · exact .refl world
    · split
      · exact .records world _ _ _ _ _
      · exact becomes_halt machine world

theorem becomes_stop (machine : Machine) (world : World σ) :
    Becomes host world (machine.stop world).world := by
  unfold stop
  split
  · exact .refl world
  · exact becomes_halt machine world

theorem becomes_serve (machine : Machine) (world : World σ) (request : Request) :
    Becomes host world (machine.serve host world request).world := by
  cases request with
  | step => exact becomes_step becomes_poll machine world
  | cycles budget => exact becomes_runCycles becomes_poll budget machine world
  | burst => exact becomes_runCycles becomes_poll world.limits.burstCycles machine world
  | resume => exact becomes_resume becomes_poll machine world
  | pause => exact becomes_pause machine world
  | stop => exact becomes_stop machine world

/-- Whatever a machine is asked, afterwards it has something to wait for exactly while it is
suspended. -/
theorem serve_coherent {machine : Machine} (coherent : machine.Coherent) (world : World σ)
    (request : Request) : (machine.serve host world request).machine.Coherent := by
  cases request with
  | step => exact step_coherent _ coherent world
  | cycles budget => exact runCycles_coherent _ budget coherent world
  | burst => exact runCycles_coherent _ _ coherent world
  | resume => exact resume_coherent _ coherent world
  | pause =>
      unfold serve pause
      dsimp only
      split
      · exact coherent
      · split
        · exact coherent
        · split
          · exact coherent
          · exact halted_coherent machine
  | stop =>
      unfold serve stop
      dsimp only
      split
      · exact coherent
      · exact halted_coherent machine

/-- The machine and the world that a sequence of requests and of changes from outside leads to. -/
inductive Run (host : Host σ) (outside : World σ → World σ → Prop) (first : Machine)
    (initial : World σ) : Machine → World σ → Prop where
  | start : Run host outside first initial first initial
  | serve {machine : Machine} {world : World σ}
      (before : Run host outside first initial machine world) (request : Request) :
      Run host outside first initial (machine.serve host world request).machine
        (machine.serve host world request).world
  | change {machine : Machine} {world after : World σ}
      (before : Run host outside first initial machine world) (changed : outside world after) :
      Run host outside first initial machine after

theorem Run.coherent {outside : World σ → World σ → Prop} {first machine : Machine}
    {initial world : World σ} (run : Run host outside first initial machine world)
    (coherent : first.Coherent) : machine.Coherent := by
  induction run with
  | start => exact coherent
  | serve before request ih => exact serve_coherent ih _ request
  | change before changed ih => exact ih

end Machine

/-- Machines that share a world. -/
structure Fleet (σ : Type) where
  machines : List Machine := []
  world : World σ

namespace Fleet

variable {σ : Type}

/-- One event in the life of a fleet. -/
inductive Step (host : Host σ) (outside : World σ → World σ → Prop) : Fleet σ → Fleet σ → Prop where
  | spawn (machines : List Machine) (world : World σ) (code : Code) (scope : ScopeRef) :
      Step host outside ⟨machines, world⟩ ⟨.start code scope :: machines, world⟩
  | serve (before : List Machine) (machine : Machine) (after : List Machine) (world : World σ)
      (request : Request) :
      Step host outside ⟨before ++ machine :: after, world⟩
        ⟨before ++ (machine.serve host world request).machine :: after,
          (machine.serve host world request).world⟩
  | drop (before : List Machine) (machine : Machine) (after : List Machine) (world : World σ) :
      Step host outside ⟨before ++ machine :: after, world⟩
        ⟨before ++ after, world.release machine⟩
  | change (machines : List Machine) {world later : World σ} (changed : outside world later) :
      Step host outside ⟨machines, world⟩ ⟨machines, later⟩

/-- Any number of events. -/
abbrev Run (host : Host σ) (outside : World σ → World σ → Prop) : Fleet σ → Fleet σ → Prop :=
  Relation.ReflTransGen (Step host outside)

end Fleet

end MiniScript
