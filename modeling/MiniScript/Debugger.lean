import MiniScript.Machine.Drive

/-!
# Stepping through a program by lines

A debugger steps its machine until it comes to another line, enters or leaves a
function. Each command has a budget of steps; a command whose budget ran out, or
that met a wait, stays in force and is continued by polling.
-/

namespace MiniScript

/-- What a command waits for. -/
inductive StepMode where
  /-- Another line, at this depth or a smaller one. -/
  | over (depth : Nat) (line : Option Nat)
  /-- A function that is entered, or a native that has answered; else another line. -/
  | into (depth : Nat) (line : Option Nat) (awaitingNative : Bool)
  /-- A smaller depth. -/
  | out (depth : Nat)
deriving DecidableEq, Repr

inductive StepStatus where
  | paused
  /-- Waits for a deferred result. -/
  | suspended
  /-- The budget ran out. -/
  | running
  | finished
deriving DecidableEq, Repr

def StepStatus.name : StepStatus → String
  | .paused => "Paused"
  | .suspended => "Suspended"
  | .running => "Running"
  | .finished => "Finished"

structure Debugger where
  machine : Machine
  /-- The command in force. -/
  mode : Option StepMode := none
  /-- The steps that one command may take. -/
  budget : Nat
  /-- Whether the host has been told of the end. -/
  endReported : Bool := false

/-- Where a command has led to. -/
structure DebugTurn (σ : Type) where
  debugger : Debugger
  world : World σ
  result : Except ScriptError StepStatus

namespace Debugger

variable {σ : Type}

/-- A debugger whose commands have the length of a burst. -/
def start (machine : Machine) (world : World σ) : Debugger :=
  { machine, budget := world.limits.burstCycles }

/-- A budget has at least one step. -/
def withBudget (debugger : Debugger) (budget : Nat) : Debugger :=
  { debugger with budget := max 1 budget }

/-- Whether a line other than `line` has been reached at `depth` or a smaller depth. -/
def movedOn (machine : Machine) (depth : Nat) (line : Option Nat) : Bool :=
  machine.depth ≤ depth && machine.line?.isSome && machine.line? != line

/-- Whether the command is done after a step. The step may have ended a wait, or may have executed a
call. -/
def isReached (machine : Machine) (mode : StepMode) (resumed executedCall : Bool) : Bool :=
  match mode with
  | .over depth line => movedOn machine depth line
  | .into depth line awaitingNative =>
      if depth < machine.depth then true
      else if resumed then awaitingNative || movedOn machine depth line
      else if executedCall && machine.lastCallNative then true
      else movedOn machine depth line
  | .out depth => machine.depth < depth

/-- The command that stays in force during a wait. -/
def afterSuspension (machine : Machine) (resuming : Bool) : StepMode → StepMode
  | .into depth line awaitingNative =>
      .into depth line (awaitingNative || (!resuming && machine.lastCallNative))
  | mode => mode

/-- Tells the host, once, that the program has ended. -/
def reportEnd (host : Host σ) (debugger : Debugger) (world : World σ)
    (result : Except ScriptError StepStatus) : DebugTurn σ :=
  if debugger.endReported then { debugger, world, result }
  else
    { debugger := { debugger with endReported := true }
      world := host.notify .debuggeeFinished world
      result }

/-- The command is done. -/
def rest (host : Host σ) (debugger : Debugger) (world : World σ) : DebugTurn σ :=
  { debugger := { debugger with mode := none }
    world := match debugger.machine.location? with
      | some location => host.notify (.reached location) world
      | none => world
    result := .ok .paused }

/-- Continues the command in force for at most that many steps. -/
def advance (host : Host σ) : Nat → Debugger → World σ → DebugTurn σ
  | 0, debugger, world => { debugger, world, result := .ok .running }
  | budget + 1, debugger, world =>
      match debugger.mode with
      | none => { debugger, world, result := .ok .paused }
      | some mode =>
          let resuming : Bool := debugger.machine.status = .suspended
          let executesCall := debugger.machine.nextOpcode?.any Opcode.isCall
          let turn := debugger.machine.stepOnce host world
          let debugger := { debugger with machine := turn.machine }
          match turn.error, turn.machine.status with
          | some error, _ =>
              reportEnd host { debugger with mode := none } turn.world (.error error)
          | none, .finished =>
              reportEnd host { debugger with mode := none } turn.world (.ok .finished)
          | none, .suspended =>
              { debugger :=
                  { debugger with mode := some (afterSuspension turn.machine resuming mode) }
                world := turn.world
                result := .ok .suspended }
          | none, _ =>
              if isReached turn.machine mode resuming executesCall then
                rest host debugger turn.world
              else advance host budget debugger turn.world

/-- Puts a command in force. -/
def arm (host : Host σ) (debugger : Debugger) (mode : StepMode) (world : World σ) : DebugTurn σ :=
  if debugger.machine.isFinished then reportEnd host debugger world (.ok .finished)
  else advance host debugger.budget { debugger with mode := some mode } world

/-- Runs to the next line at this depth or a smaller one. -/
def stepOver (host : Host σ) (debugger : Debugger) (world : World σ) : DebugTurn σ :=
  debugger.arm host (.over debugger.machine.depth debugger.machine.line?) world

/-- Enters the call on this line; without one, runs to the next line. -/
def stepInto (host : Host σ) (debugger : Debugger) (world : World σ) : DebugTurn σ :=
  let depth := debugger.machine.depth
  let line := debugger.machine.line?
  if debugger.machine.entry?.any (·.isCallSite) then
    debugger.arm host (.into depth line false) world
  else debugger.arm host (.over depth line) world

/-- Runs until the function returns. -/
def stepOut (host : Host σ) (debugger : Debugger) (world : World σ) : DebugTurn σ :=
  debugger.arm host (.out debugger.machine.depth) world

/-- Continues the command in force. -/
def poll (host : Host σ) (debugger : Debugger) (world : World σ) : DebugTurn σ :=
  if debugger.machine.isFinished then reportEnd host debugger world (.ok .finished)
  else
    match debugger.mode with
    | none => { debugger, world, result := .ok .paused }
    | some _ => advance host debugger.budget debugger world

/-- Ends the program. -/
def stop (host : Host σ) (debugger : Debugger) (world : World σ) : DebugTurn σ :=
  let turn := debugger.machine.stop world
  reportEnd host { debugger with machine := turn.machine, mode := none } turn.world (.ok .finished)

end Debugger

end MiniScript
