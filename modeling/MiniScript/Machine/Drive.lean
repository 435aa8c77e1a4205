import MiniScript.Machine.Step

/-!
# Driving machines

Polling a deferred result asks the clock, the host or the body of a module; the
last is run for one burst. A machine is driven in bursts until it ends; while it
waits, time passes, unless nothing can end the wait.
-/

namespace MiniScript

namespace World

variable {σ : Type}

/-- Polls a deferred result. Modules whose bodies wait for other modules in turn are followed to at
most `level` of them. -/
def pollWithin (host : Host σ) : Nat → DeferredRef → World σ → World σ
  | 0, _, world => world
  | level + 1, ref, world =>
      match (world.deferred ref).pollable? with
      | none => world
      | some provider =>
          let world := world.modifyDeferred ref .lend
          match provider with
          | .clock deadline =>
              let answer := if deadline ≤ world.clock then some (.ok .null) else none
              world.modifyDeferred ref fun deferred => deferred.settle answer provider
          | .host id =>
              let (answer, world) := host.poll id world
              world.modifyDeferred ref fun deferred => deferred.settle answer provider
          | .module load =>
              let turn := Machine.runCycles host (pollWithin host level) world.limits.burstCycles
                load.machine world
              if turn.machine.isFinished then
                let (delivery, world) := Library.finishModule load turn.error turn.world
                world.modifyDeferred ref fun deferred => deferred.settle (some delivery) provider
              else
                let waiting := Provider.module { load with machine := turn.machine }
                turn.world.modifyDeferred ref fun deferred => deferred.settle none waiting

/-- Looks for the result of a deferred. A module waits only for results that are older than the
look itself, so their number bounds how deep it goes. -/
def poll (host : Host σ) (ref : DeferredRef) (world : World σ) : World σ :=
  pollWithin host (world.deferreds.size + 1) ref world

end World

namespace Machine

variable {σ : Type}

/-- One step of a machine of its own. -/
def stepOnce (host : Host σ) (machine : Machine) (world : World σ) : Turn σ :=
  machine.step host (World.poll host) world

/-- Steps until the machine ends, waits or asks to yield, at most `budget` times. -/
def cycles (host : Host σ) (budget : Nat) (machine : Machine) (world : World σ) : Turn σ :=
  machine.runCycles host (World.poll host) budget world

/-- As many steps as the limits allow at once. -/
def burst (host : Host σ) (machine : Machine) (world : World σ) : Turn σ :=
  machine.cycles host world.limits.burstCycles world

/-- Ends a machine unless it has ended. -/
def stop (machine : Machine) (world : World σ) : Turn σ :=
  if machine.isFinished then { machine, world } else machine.halt world

/-- Lets a millisecond pass. A machine that waits for what nobody will deliver is ended. -/
def pause (machine : Machine) (world : World σ) : Turn σ :=
  match machine.wait? with
  | none => { machine, world }
  | some wait =>
      if world.isWoken wait then { machine, world }
      else if (world.deferred wait.deferred).isSelfDriving then
        { machine, world := world.pass 1000000 }
      else machine.abort world (.internal .hopeless)

/-- Bursts, at most `fuel` of them, until the machine ends. Between two bursts the machine pauses
if it waits; otherwise `between` is done. -/
def drive (host : Host σ) (between : World σ → World σ) : Nat → Machine → World σ → Turn σ
  | 0, machine, world => { machine, world }
  | fuel + 1, machine, world =>
      let turn := machine.burst host world
      match turn.machine.status with
      | .finished => turn
      | .suspended =>
          let turn := turn.machine.pause turn.world
          match turn.error with
          | some _ => turn
          | none => drive host between fuel turn.machine turn.world
      | _ => drive host between fuel turn.machine (between turn.world)

/-- Runs to the end, in at most `fuel` bursts. -/
def runToCompletion (host : Host σ) (fuel : Nat) (machine : Machine) (world : World σ) : Turn σ :=
  machine.drive host id fuel world

end Machine

end MiniScript
