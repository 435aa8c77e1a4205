import MiniScript.Machine.Execute
import MiniScript.World.Cancel

/-!
# Steps of a machine

A step executes one instruction or, while the machine waits, looks whether it can
go on. An error ends the machine. Deferred results are polled by a function that
is given to the step, because the body of a module is itself run by steps.
-/

namespace MiniScript

/-- Where a machine has got to: the machine, the world, and the error that ended it. -/
structure Turn (σ : Type) where
  machine : Machine
  world : World σ
  error : Option ScriptError := none

/-- Looks for the result of a deferred. -/
abbrev Poller (σ : Type) := DeferredRef → World σ → World σ

/-- Adds the place of an instruction to a runtime error that has none. -/
def ScriptError.locate (error : ScriptError) (code : Code) (position : Nat) : ScriptError :=
  match error with
  | .runtime error => .runtime (error.locate (code.lineAt? position) code.sourceName)
  | other => other

namespace Machine

variable {σ : Type}

/-- Ends a machine by force and gives up what it waits for. -/
def halt (machine : Machine) (world : World σ) : Turn σ :=
  { machine := machine.halted, world := world.cancelWait machine }

/-- Ends a machine because of an error. -/
def abort (machine : Machine) (world : World σ) (error : ScriptError) : Turn σ :=
  { machine.halt world with error := some error }

/-- Leaves functions whose code has run out; each returns null. -/
def unwind : Frame → List Frame → List Value → Frame × List Frame × List Value
  | frame, [], stack => (frame, [], stack)
  | frame, caller :: callers, stack =>
      if frame.isDone then unwind caller callers (.null :: stack)
      else (frame, caller :: callers, stack)

/-- Ends the program once the outermost code has run out; no operand may be left then. -/
def settle (machine : Machine) (world : World σ) : Turn σ :=
  let (frame, callers, stack) := unwind machine.frame machine.callers machine.stack
  let machine := { machine with frame, callers, stack }
  if frame.isDone then
    if stack.isEmpty then { machine := { machine with status := .finished }, world }
    else machine.abort world (.internal (.leftover stack.length))
  else { machine, world }

/-- The machine as it begins an instruction: it already points behind it. -/
def begun (machine : Machine) : Machine :=
  { machine with
    frame := { machine.frame with position := machine.frame.position + 1 }
    lastCallNative := false
    yieldRequested := false }

/-- Executes the next instruction of a running machine. -/
def advance (host : Host σ) (machine : Machine) (world : World σ) : Turn σ :=
  let code := machine.frame.code
  let position := machine.frame.position
  match code.instrs[position]? with
  | none => machine.begun.abort world (.internal (.noInstruction position))
  | some instr =>
      match Exec.instruction host position instr ⟨machine.begun, world.pass 1000⟩ with
      | (.ok _, ⟨next, world⟩) =>
          if next.status = .running then next.settle world else { machine := next, world }
      | (.error error, ⟨left, world⟩) => left.abort world (error.locate code position)

/-- Goes on with the result that the machine waited for; it becomes an operand. A failure is
reported at the call that began the wait. -/
def awaken (machine : Machine) (ref : DeferredRef) (world : World σ) : Turn σ :=
  let result := (world.deferred ref).result
  let world := world.modifyDeferred ref .take
  let machine := { machine with wait? := none }
  let code := machine.frame.code
  match result with
  | some (.ok value) => { machine := { machine.push value with status := .running }, world }
  | some (.error error) =>
      machine.abort world ((ScriptError.runtime error).locate code (machine.position - 1))
  | none => machine.abort world (.internal .noResult)

/-- Polls what a machine waits for, unless the machine has been told. -/
def attend (poll : Poller σ) (wait : Wait) (world : World σ) : World σ :=
  if world.isWoken wait then world else poll wait.deferred world

/-- Goes on if the machine does not wait or its result is there. -/
def resume (poll : Poller σ) (machine : Machine) (world : World σ) : Turn σ :=
  match machine.wait? with
  | none => { machine, world }
  | some wait =>
      let world := attend poll wait world
      if world.isWoken wait then machine.awaken wait.deferred world else { machine, world }

/-- Whether a machine that has looked for its result goes on. -/
def goesOn (turn : Turn σ) : Bool :=
  turn.error.isNone && turn.machine.wait?.isNone

/-- One step. -/
def step (host : Host σ) (poll : Poller σ) (machine : Machine) (world : World σ) : Turn σ :=
  match machine.status with
  | .finished => { machine, world }
  | .suspended =>
      let turn := machine.resume poll world
      if goesOn turn then turn.machine.settle turn.world else turn
  | _ =>
      let turn := { machine with status := .running }.settle world
      if turn.machine.status = .running then turn.machine.advance host turn.world else turn

/-- Steps until the machine ends, waits or asks to yield, at most `budget` times. -/
def runCycles (host : Host σ) (poll : Poller σ) : Nat → Machine → World σ → Turn σ
  | 0, machine, world => { machine, world }
  | budget + 1, machine, world =>
      let turn := machine.step host poll world
      match turn.machine.status with
      | .running =>
          if turn.machine.yieldRequested then
            { turn with machine := { turn.machine with yieldRequested := false } }
          else runCycles host poll budget turn.machine turn.world
      | _ => turn

theorem step_finished (host : Host σ) (poll : Poller σ) {machine : Machine}
    (finished : machine.status = .finished) (world : World σ) :
    machine.step host poll world = { machine, world } := by
  simp [step, finished]

end Machine

end MiniScript
