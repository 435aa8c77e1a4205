import MiniScript.Code.Listing
import MiniScript.Library.Basic
import MiniScript.Library.Import

/-!
# Executing an instruction

An instruction takes its operands one after the other, checks them, and reads and
changes the machine and the world as it goes. Where it fails it stops, and what it
has changed until then stays changed.

A call binds its arguments to the parameters of the function: the receiver fills
a leading `self`, the arguments follow in order, and defaults fill the rest. A
script function gets a scope and a frame of its own; a native answers at once, or
the machine waits for its result. A value that is no function, called without
arguments, is its own result.
-/

namespace MiniScript

/-- The receiver, if the function takes it as its first argument. -/
def leadingArguments (definition : Definition) (receiver : Option Value) : List Value :=
  if definition.takesSelf then receiver.toList else []

/-- The arguments of a call with the receiver and the defaults filled in. -/
def bindArguments (definition : Definition) (args : List Value) (receiver : Option Value) :
    Except Fault (List Value) :=
  let leading := leadingArguments definition receiver
  let capacity := definition.params.length - leading.length
  if capacity < args.length then
    .error (.tooManyArguments definition.displayName capacity args.length)
  else
    let bound := leading ++ args
    .ok (bound ++ (definition.params.drop bound.length).map (·.default))

namespace Machine

variable {σ : Type}

def orFault {α : Type} : Except Fault α → Except ScriptError α
  | .ok value => .ok value
  | .error fault => .error (.runtime { fault })

/-- The top operand. -/
def pop (machine : Machine) : Except ScriptError (Value × Machine) :=
  match machine.pop? with
  | some popped => .ok popped
  | none => .error (.internal .underflow)

/-- The top `count` operands, in the order they were pushed. -/
def popMany (machine : Machine) (count : Nat) : Except ScriptError (List Value × Machine) :=
  match machine.popMany? count with
  | some popped => .ok popped
  | none => .error (.internal .underflow)

def malformed {α : Type} (heap : Heap) (op : Opcode) (operand : Operand) : Except ScriptError α :=
  .error (.internal (.malformedOperand (heap.operandText operand) op.name))

def nameOperand (heap : Heap) (op : Opcode) : Operand → Except ScriptError String
  | .name name => .ok name
  | operand => malformed heap op operand

/-- A whole number from zero on, below the limit if there is one. -/
def natOperand (heap : Heap) (limit : Option Nat) (op : Opcode) : Operand → Except ScriptError Nat
  | .int value =>
      if 0 ≤ value && limit.all (value < ·) then .ok value.toNat else malformed heap op (.int value)
  | operand => malformed heap op operand

def countOperand (heap : Heap) : Opcode → Operand → Except ScriptError Nat :=
  natOperand heap none

/-- The number of a loop has thirty-two bits. -/
def loopOperand (heap : Heap) : Opcode → Operand → Except ScriptError Nat :=
  natOperand heap (some UInt32.size)

def opOperand (heap : Heap) (op : Opcode) : Operand → Except ScriptError BinaryOp
  | .op binary => .ok binary
  | operand => malformed heap op operand

def addressOperand (heap : Heap) : Operand → Except ScriptError Nat
  | .addr address => .ok address
  | operand => .error (.internal (.unresolvedTarget (heap.operandText operand)))

def activeLoop (machine : Machine) (id : Nat) : Except ScriptError LoopState :=
  match machine.frame.loop? id with
  | some loop => .ok loop
  | none => .error (.internal (.inactiveLoop id))

/-- The map with the variables of a scope that a script can name. -/
def scopeVars (world : World σ) (scope : ScopeRef) : ScopeKind → MapRef
  | .locals => world.heap.vars scope
  | .globals => world.heap.vars world.globals
  | .outer => world.heap.vars ((world.heap.scopeAt scope).parent.getD world.globals)

/-- The value of a variable; `self` and `super` are null where there are none. -/
def loadVariable (world : World σ) (scope : ScopeRef) (name : String) : Except Fault Value :=
  match world.resolve? scope name with
  | some value => .ok value
  | none => if name = selfName || name = superName then .ok .null else .error (.undefined name)

def calledVariable (world : World σ) (scope : ScopeRef) (name : String) : Except Fault Value :=
  match world.resolve? scope name with
  | some value => .ok value
  | none => .error (.undefined name)

/-- The parent of the map that the running method was found in. -/
def superValue (world : World σ) (scope : ScopeRef) : Value :=
  (world.heap.lookup? scope superName).getD .null

/-- What a loop visits, and the map when it visits the keys of one. -/
def loopItems (heap : Heap) : Value → Except Fault (Array Value × Option MapRef)
  | .list ref => .ok (heap.items ref, none)
  | .text text =>
      .ok ((text.toList.map fun char => Value.text (String.ofList [char])).toArray, none)
  | .map ref => .ok (((heap.entries ref).map (·.key)).toArray, some ref)
  | other => .error (.cannotIterate other.kind)

/-- What the variable of a loop is bound to: an item, or a key with its present value. -/
def loopValue (heap : Heap) (source : Option MapRef) (item : Value) : Draft :=
  match source with
  | none => .plain item
  | some map =>
      .map (MapObject.ofNames [("key", item), ("value", (heap.get? map item).getD .null)])

/-- Keys and values from a row of both in turn. -/
def pairUp : List Value → List (Value × Value)
  | key :: value :: rest => (key, value) :: pairUp rest
  | _ => []

/-- Leaves the running function with a value; outside of functions the value is dropped. -/
def leave (machine : Machine) (value : Value) : Machine :=
  match machine.callers with
  | [] => machine
  | caller :: callers => { machine with frame := caller, callers, stack := value :: machine.stack }

end Machine

/-- A machine that executes an instruction, and its world. -/
structure Execution (σ : Type) where
  machine : Machine
  world : World σ

/-- A part of the execution of an instruction. It leaves a machine and a world behind also where it
fails. -/
abbrev Exec (σ : Type) := ExceptT ScriptError (StateM (Execution σ))

namespace Exec

open Machine

variable {σ : Type}

def fail {α : Type} (fault : Fault) : Exec σ α :=
  throw (.runtime { fault })

def check {α : Type} (result : Except Fault α) : Exec σ α :=
  match orFault result with
  | .ok value => pure value
  | .error error => throw error

def world : Exec σ (World σ) :=
  return (← get).world

def heap : Exec σ Heap :=
  return (← get).world.heap

def machine : Exec σ Machine :=
  return (← get).machine

/-- The scope of the running code. -/
def scope : Exec σ ScopeRef :=
  return (← get).machine.frame.scope

def update (write : Machine → Machine) : Exec σ Unit :=
  modify fun execution => { execution with machine := write execution.machine }

def change (write : Heap → Heap) : Exec σ Unit :=
  modify fun execution => { execution with world := execution.world.modifyHeap write }

/-- Lets something else work in the world. -/
def inWorld {α : Type} (routine : Routine σ α) : Exec σ α := do
  let execution ← get
  let (result, world) := routine execution.world
  set { execution with world }
  match result with
  | .ok value => return value
  | .error error => throw (.runtime error)

def push (value : Value) : Exec σ Unit :=
  update fun machine => machine.push value

/-- Takes operands off the stack. -/
def take {α : Type} (operands : Machine → Except ScriptError (α × Machine)) : Exec σ α := do
  let (taken, next) ← operands (← machine)
  update fun _ => next
  return taken

/-- Takes the top operand. -/
def pop : Exec σ Value :=
  take Machine.pop

/-- Takes the top `count` operands, in the order they were pushed. -/
def popMany (count : Nat) : Exec σ (List Value) :=
  take fun machine => machine.popMany count

/-- Places a draft in the heap. -/
def place (draft : Draft) : Exec σ Value := do
  let value := draft.valueIn (← heap)
  change draft.addTo
  return value

/-- Pushes the value that a draft becomes. -/
def pushDraft (draft : Draft) : Exec σ Unit := do
  push (← place draft)

def jump (target : Operand) : Exec σ Unit := do
  let address ← addressOperand (← heap) target
  update fun machine => machine.jump address

/-- Stores in a map, with an announcement. -/
def store (host : Host σ) (map : MapRef) (key value : Value) : Exec σ Unit :=
  inWorld fun world => world.store host map key value

/-- Stores into a map or a list. -/
def storeAt (host : Host σ) (subject key value : Value) : Exec σ Unit :=
  match subject with
  | .map map => store host map key value
  | .list list =>
      match key with
      | .number index => do
          let position ← check (Sequence.position index ((← heap).items list).size)
          change fun heap => heap.modifyItems list fun items => items.setIfInBounds position value
      | key => fail (.listIndex key.kind)
  | .text _ => fail .immutableText
  | other => fail (.cannotStore other.kind)

/-- Begins to wait for a deferred result. -/
def suspend (ref : DeferredRef) : Exec σ Unit :=
  modify fun execution =>
    let world := execution.world
    let waiter := world.suspensions
    { machine :=
        { execution.machine with status := .suspended, wait? := some ⟨ref, waiter⟩ }
      world :=
        { world.modifyDeferred ref fun deferred => deferred.onReady waiter with
          suspensions := waiter + 1 } }

/-- Takes the reply of a native. -/
def receive (reply : Reply) : Exec σ Unit := do
  update fun machine => { machine with yieldRequested := reply.yields, lastCallNative := true }
  match reply.answer with
  | .ready value => push value
  | .pending ref => suspend ref

/-- Sets a variable without an announcement. -/
def setLocal (scope : ScopeRef) (name : String) (value : Value) : Exec σ Unit :=
  change fun heap => heap.setLocal scope name value

/-- Sets variables, one after the other. -/
def setLocals (scope : ScopeRef) : List (String × Value) → Exec σ Unit
  | [] => return
  | (name, value) :: rest => do
      setLocal scope name value
      setLocals scope rest

/-- Enters the code of a script function: a scope for its parameters, the receiver and the parent of
the map the method was found in, and then a frame. -/
def enter (code : Code) (outer : Option ScopeRef) (params : List (String × Value))
    (receiver : Option Value) (owner : Option MapRef) : Exec σ Unit := do
  let limit := (← world).limits.maxCallDepth
  if limit ≤ (← machine).depth then fail (.callStackTooDeep limit)
  else
    let parent := outer.getD (← world).globals
    let above := owner.bind (← heap).isaParent?
    let scope := (← heap).nextScope
    change fun heap => heap.addScope (some parent) {}
    setLocals scope params
    if let some receiver := receiver then setLocal scope selfName receiver
    if let some above := above then setLocal scope superName (.map above)
    update fun machine =>
      { machine with frame := { code, scope }, callers := machine.frame :: machine.callers }

/-- Calls a value. -/
def call (host : Host σ) (callee : Value) (args : List Value) (receiver : Option Value)
    (owner : Option MapRef) : Exec σ Unit := do
  match callee with
  | .function closure =>
      let definition := (← heap).definition closure.definition
      let bound ← check (bindArguments definition args receiver)
      let call : Invocation := { definition, args := bound, scope := ← scope }
      match definition.body with
      | .script code =>
          enter code closure.outer ((definition.params.map (·.name)).zip bound) receiver owner
      | .builtin builtin => receive (← inWorld (Library.routine builtin call))
      | .importer => receive (← inWorld (Library.importModule host call))
      | .host id => receive (← inWorld (host.call id call))
  | other => if args.isEmpty then push other else fail (.cannotCall other.kind)

/-- The next turn of a loop, or its end. -/
def iterate (host : Host σ) (position : Nat) (id exit : Nat) : Exec σ Unit := do
  let loop ← (← machine).activeLoop id
  let loop := { loop with start := position, exit }
  update fun machine => { machine with frame := machine.frame.putLoop loop }
  match loop.items[loop.index]? with
  | none =>
      update fun machine =>
        { machine with frame := { machine.frame.dropLoop loop.id with position := exit } }
  | some item =>
      update fun machine =>
        { machine with frame := machine.frame.putLoop { loop with index := loop.index + 1 } }
      let value ← place (loopValue (← heap) loop.source item)
      store host ((← heap).vars (← scope)) (.text loop.var) value

/-- Executes the instruction at `position`; the machine already points behind it. -/
def instruction (host : Host σ) (position : Nat) (instr : Instr) : Exec σ Unit := do
  let op := instr.op
  match op with
  | .pushValue =>
      match instr.first with
      | .value value => push value
      | operand => malformed (← heap) op operand
  | .pushFunction =>
      match instr.first with
      | .func ref => push (.function ⟨ref, some (← scope)⟩)
      | operand => malformed (← heap) op operand
  | .pushScope =>
      match instr.first with
      | .scope kind => push (.map (scopeVars (← world) (← scope) kind))
      | operand => malformed (← heap) op operand
  | .loadVar => do
      let name ← nameOperand (← heap) op instr.first
      let value ← check (loadVariable (← world) (← scope) name)
      push value
  | .callVar => do
      let name ← nameOperand (← heap) op instr.first
      let count ← countOperand (← heap) op instr.second
      let args ← popMany count
      let callee ← check (calledVariable (← world) (← scope) name)
      call host callee args none none
  | .assignVar => do
      let name ← nameOperand (← heap) op instr.first
      let value ← pop
      store host ((← heap).vars (← scope)) (.text name) value
  | .loadIndex => do
      let key ← pop
      let subject ← pop
      let member ← check ((← world).member subject key)
      push member.value
  | .callIndex => do
      let count ← countOperand (← heap) op instr.first
      let args ← popMany count
      let key ← pop
      let subject ← pop
      let member ← check ((← world).member subject key)
      call host member.value args (some subject) member.owner
  | .assignIndex => do
      let value ← pop
      let key ← pop
      let subject ← pop
      storeAt host subject key value
  | .loadSuperIndex => do
      let key ← pop
      let world ← world
      let member ← check (world.member (superValue world (← scope)) key)
      push member.value
  | .callSuper => do
      let count ← countOperand (← heap) op instr.first
      let args ← popMany count
      let key ← pop
      let world ← world
      let member ← check (world.member (superValue world (← scope)) key)
      let receiver := world.heap.lookup? (← scope) selfName
      call host member.value args receiver member.owner
  | .callValue => do
      let count ← countOperand (← heap) op instr.first
      let args ← popMany count
      let callee ← pop
      call host callee args none none
  | .slice => do
      let last ← pop
      let first ← pop
      let subject ← pop
      pushDraft (← check (Operator.slice (← heap) subject first last))
  | .buildList => do
      let count ← countOperand (← heap) op instr.first
      let items ← popMany count
      pushDraft (.list items.toArray)
  | .buildMap => do
      let count ← countOperand (← heap) op instr.first
      let flat ← popMany (count * 2)
      pushDraft (.map { entries := (← heap).withEntries [] (pairUp flat) })
  | .binary => do
      let binary ← opOperand (← heap) op instr.first
      let right ← pop
      let left ← pop
      pushDraft (← check ((← world).binary binary left right))
  | .compareKeep => do
      let binary ← opOperand (← heap) op instr.first
      let right ← pop
      let left ← pop
      let draft ← check ((← world).binary binary left right)
      push right
      pushDraft draft
  | .negate => do
      let value ← pop
      push (← check (Operator.negate value))
  | .not => do
      let value ← pop
      push (.truth (!(← heap).isTruthy value))
  | .new => do
      let parent ← pop
      pushDraft (← check (Operator.instantiate parent))
  | .pop => do
      let _ ← pop
  | .dup2 =>
      match (← machine).stack with
      | top :: below :: _ => do
          push below
          push top
      | _ => throw (.internal .underflow)
  | .jump => jump instr.first
  | .jumpIfFalse => do
      let value ← pop
      if (← heap).isTruthy value then return
      else jump instr.first
  | .jumpIfTrue => do
      let value ← pop
      if (← heap).isTruthy value then jump instr.first
      else return
  | .return => do
      let value ← pop
      update fun machine => machine.leave value
  | .createForLoop => do
      let id ← loopOperand (← heap) op instr.first
      let var ← nameOperand (← heap) op instr.second
      let subject ← pop
      let (items, source) ← check (loopItems (← heap) subject)
      update fun machine =>
        { machine with frame := machine.frame.putLoop { id, var, items, source } }
  | .iterateForLoop => do
      let id ← loopOperand (← heap) op instr.first
      let exit ← addressOperand (← heap) instr.second
      iterate host position id exit
  | .breakForLoop => do
      let id ← loopOperand (← heap) op instr.first
      let loop ← (← machine).activeLoop id
      update fun machine =>
        { machine with frame := { machine.frame.dropLoop id with position := loop.exit } }
  | .continueForLoop => do
      let id ← loopOperand (← heap) op instr.first
      let loop ← (← machine).activeLoop id
      update fun machine => machine.jump loop.start

end Exec

namespace Machine

variable {σ : Type}

/-- What an instruction comes to: the machine after it or an error, and the world. -/
abbrev Outcome (σ : Type) := Except ScriptError Machine × World σ

/-- Executes an instruction. -/
def execute (host : Host σ) (machine : Machine) (position : Nat) (instr : Instr)
    (world : World σ) : Outcome σ :=
  match Exec.instruction host position instr ⟨machine, world⟩ with
  | (.ok _, execution) => (.ok execution.machine, execution.world)
  | (.error error, execution) => (.error error, execution.world)

end Machine

end MiniScript
