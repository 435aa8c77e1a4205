import MiniScript.Code.Basic

/-!
# Machines

A machine runs one program. It has a frame for the code that is running, the
frames of the callers, one operand stack that all frames share, and it is
either about to start, running, waiting for a deferred result, or finished.
-/

namespace MiniScript

/-- A loop over the items that its subject had when the loop began. -/
structure LoopState where
  id : Nat
  var : String
  items : Array Value
  /-- The map, when the items are the keys of one. -/
  source : Option MapRef
  /-- The item whose turn is next. -/
  index : Nat := 0
  /-- The instruction that goes on with the loop. -/
  start : Nat := 0
  /-- Where the loop is left. -/
  exit : Nat := 0

structure Frame where
  code : Code
  /-- The next instruction. -/
  position : Nat := 0
  scope : ScopeRef
  /-- The loops that are running, each under its own number. -/
  loops : List LoopState := []

namespace Frame

def isDone (frame : Frame) : Bool :=
  frame.code.size ≤ frame.position

def loop? (frame : Frame) (id : Nat) : Option LoopState :=
  frame.loops.find? fun loop => loop.id == id

def dropLoop (frame : Frame) (id : Nat) : Frame :=
  { frame with loops := frame.loops.filter fun loop => loop.id != id }

/-- Puts a loop in place of the one with the same number. -/
def putLoop (frame : Frame) (loop : LoopState) : Frame :=
  { frame with loops := loop :: (frame.dropLoop loop.id).loops }

/-- The frame of code that has been given up. -/
def abandoned (frame : Frame) : Frame :=
  { frame with loops := [], position := frame.code.size }

theorem isDone_abandoned (frame : Frame) : frame.abandoned.isDone = true := by
  simp [abandoned, isDone]

theorem loop?_putLoop (frame : Frame) (loop : LoopState) :
    (frame.putLoop loop).loop? loop.id = some loop := by
  simp [putLoop, loop?]

theorem loop?_dropLoop (frame : Frame) (id : Nat) : (frame.dropLoop id).loop? id = none := by
  simp [dropLoop, loop?, List.find?_eq_none]

end Frame

/-- A deferred result in the world. -/
structure DeferredRef where
  index : Nat
deriving DecidableEq, Repr, Inhabited

/-- The result a machine waits for, and the number under which it is told. -/
structure Wait where
  deferred : DeferredRef
  waiter : Nat
deriving DecidableEq, Repr

inductive Status where
  | ready
  | running
  | suspended
  | finished
deriving DecidableEq, Repr

def Status.name : Status → String
  | .ready => "Ready"
  | .running => "Running"
  | .suspended => "Suspended"
  | .finished => "Finished"

structure Machine where
  /-- The code that is running. -/
  frame : Frame
  /-- The callers, the nearest one first. -/
  callers : List Frame := []
  /-- The operands, the top one first. -/
  stack : List Value := []
  status : Status := .ready
  /-- What the machine waits for. -/
  wait? : Option Wait := none
  /-- Whether the last instruction asked to end the burst. -/
  yieldRequested : Bool := false
  /-- Whether the last instruction called a native function. -/
  lastCallNative : Bool := false

namespace Machine

def start (code : Code) (scope : ScopeRef) : Machine :=
  { frame := { code, scope } }

def isFinished (machine : Machine) : Bool :=
  machine.status = .finished

/-- The number of saved frames. -/
def depth (machine : Machine) : Nat :=
  machine.callers.length

def position (machine : Machine) : Nat :=
  machine.frame.position

def entry? (machine : Machine) : Option SourceEntry :=
  machine.frame.code.entryAt? machine.position

def line? (machine : Machine) : Option Nat :=
  machine.entry?.map (·.line)

/-- Where the next instruction comes from. -/
def location? (machine : Machine) : Option Location :=
  machine.frame.code.locationAt? machine.position

def nextOpcode? (machine : Machine) : Option Opcode :=
  machine.frame.code.opcodeAt? machine.position

def push (machine : Machine) (value : Value) : Machine :=
  { machine with stack := value :: machine.stack }

def pop? (machine : Machine) : Option (Value × Machine) :=
  match machine.stack with
  | [] => none
  | value :: stack => some (value, { machine with stack })

/-- Takes the top `count` operands, in the order they were pushed. -/
def popMany? (machine : Machine) (count : Nat) : Option (List Value × Machine) :=
  if machine.stack.length < count then none
  else
    some ((machine.stack.take count).reverse, { machine with stack := machine.stack.drop count })

def jump (machine : Machine) (position : Nat) : Machine :=
  { machine with frame := { machine.frame with position } }

/-- The outermost frame. -/
def outermost (machine : Machine) : Frame :=
  machine.callers.getLast?.getD machine.frame

/-- The machine once it has been ended by force. -/
def halted (machine : Machine) : Machine :=
  { machine with
    frame := machine.outermost.abandoned
    callers := []
    stack := []
    status := .finished
    wait? := none }

end Machine

end MiniScript
