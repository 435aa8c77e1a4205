import MiniScript.World.Basic

/-!
# Giving up

Giving up a deferred result that a module would have delivered also ends the
body of the module, gives up what that body waits for, and frees the name of the
module.
-/

namespace MiniScript

namespace World

variable {σ : Type}

/-- Gives up a deferred result and at most `fuel` others that it depends on in turn. -/
def cancelWithin : Nat → DeferredRef → World σ → World σ
  | 0, ref, world => world.modifyDeferred ref .cancel
  | fuel + 1, ref, world =>
      let source := (world.deferred ref).source
      let world := world.modifyDeferred ref .cancel
      match source with
      | some (.module load) =>
          let world := match load.machine.wait? with
            | some wait => cancelWithin fuel wait.deferred world
            | none => world
          { world with loading := world.loading.filter (· ≠ load.name) }
      | _ => world

def cancel (world : World σ) (ref : DeferredRef) : World σ :=
  cancelWithin world.deferreds.size ref world

/-- Gives up what a machine waits for. -/
def cancelWait (world : World σ) (machine : Machine) : World σ :=
  match machine.wait? with
  | some wait => world.cancel wait.deferred
  | none => world

/-- A machine is thrown away: a module that only it waits for is given up, but no result that
somebody else may hold. -/
def release (world : World σ) (machine : Machine) : World σ :=
  match machine.wait? with
  | none => world
  | some wait =>
      match (world.deferred wait.deferred).source with
      | some (.module _) => world.cancel wait.deferred
      | _ => world

theorem cancelWait_of_no_wait {machine : Machine} (free : machine.wait? = none) (world : World σ) :
    world.cancelWait machine = world := by
  simp [cancelWait, free]

end World

end MiniScript
