import MiniScript.Machine.Execute
import MiniScript.Proofs.Library.Effect

/-!
# What an instruction is about to do

An instruction could first take its operands, look at the world and either fail or
settle on an action, and only then change anything. Such an action is planned and
then performed.
-/

namespace MiniScript

/-- What is left to do once an instruction has its operands. Each action says how the machine goes
on. -/
inductive Action where
  /-- Nothing more. -/
  | proceed (next : Machine)
  /-- Push a value. -/
  | produce (next : Machine) (draft : Draft)
  /-- Store in a map, with an announcement. -/
  | store (next : Machine) (map : MapRef) (key : Value) (draft : Draft)
  /-- Replace an item of a list. -/
  | replaceItem (next : Machine) (list : ListRef) (index : Nat) (value : Value)
  | call (next : Machine) (callee : Value) (args : List Value) (receiver : Option Value)
      (owner : Option MapRef)

namespace Machine

variable {σ : Type}

/-- A store into a map or a list. -/
def planStore (heap : Heap) (next : Machine) (subject key value : Value) : Except Fault Action :=
  match subject with
  | .map map => .ok (.store next map key (.plain value))
  | .list list =>
      match key with
      | .number index => do
          let position ← Sequence.position index (heap.items list).size
          return .replaceItem next list position value
      | key => .error (.listIndex key.kind)
  | .text _ => .error .immutableText
  | other => .error (.cannotStore other.kind)

/-- The next turn of a loop, or its end. -/
def planTurn (world : World σ) (machine : Machine) (position exit : Nat) (loop : LoopState) :
    Action :=
  match loop.items[loop.index]? with
  | none =>
      .proceed { machine with frame := { machine.frame.dropLoop loop.id with position := exit } }
  | some item =>
      let loop := { loop with start := position, exit, index := loop.index + 1 }
      .store { machine with frame := machine.frame.putLoop loop }
        (world.heap.vars machine.frame.scope) (.text loop.var)
        (loopValue world.heap loop.source item)

/-- The action of the instruction at `position`; the machine already points behind it. -/
def plan (world : World σ) (machine : Machine) (position : Nat) (instr : Instr) :
    Except ScriptError Action :=
  let heap := world.heap
  let scope := machine.frame.scope
  let op := instr.op
  match op with
  | .pushValue =>
      match instr.first with
      | .value value => .ok (.proceed (machine.push value))
      | operand => malformed heap op operand
  | .pushFunction =>
      match instr.first with
      | .func ref => .ok (.proceed (machine.push (.function ⟨ref, some scope⟩)))
      | operand => malformed heap op operand
  | .pushScope =>
      match instr.first with
      | .scope kind => .ok (.proceed (machine.push (.map (scopeVars world scope kind))))
      | operand => malformed heap op operand
  | .loadVar => do
      let name ← nameOperand heap op instr.first
      let value ← orFault (loadVariable world scope name)
      return .proceed (machine.push value)
  | .callVar => do
      let name ← nameOperand heap op instr.first
      let count ← countOperand heap op instr.second
      let (args, machine) ← machine.popMany count
      let callee ← orFault (calledVariable world scope name)
      return .call machine callee args none none
  | .assignVar => do
      let name ← nameOperand heap op instr.first
      let (value, machine) ← machine.pop
      return .store machine (heap.vars scope) (.text name) (.plain value)
  | .loadIndex => do
      let (key, machine) ← machine.pop
      let (subject, machine) ← machine.pop
      let member ← orFault (world.member subject key)
      return .proceed (machine.push member.value)
  | .callIndex => do
      let count ← countOperand heap op instr.first
      let (args, machine) ← machine.popMany count
      let (key, machine) ← machine.pop
      let (subject, machine) ← machine.pop
      let member ← orFault (world.member subject key)
      return .call machine member.value args (some subject) member.owner
  | .assignIndex => do
      let (value, machine) ← machine.pop
      let (key, machine) ← machine.pop
      let (subject, machine) ← machine.pop
      orFault (planStore heap machine subject key value)
  | .loadSuperIndex => do
      let (key, machine) ← machine.pop
      let member ← orFault (world.member (superValue world scope) key)
      return .proceed (machine.push member.value)
  | .callSuper => do
      let count ← countOperand heap op instr.first
      let (args, machine) ← machine.popMany count
      let (key, machine) ← machine.pop
      let member ← orFault (world.member (superValue world scope) key)
      return .call machine member.value args (heap.lookup? scope selfName) member.owner
  | .callValue => do
      let count ← countOperand heap op instr.first
      let (args, machine) ← machine.popMany count
      let (callee, machine) ← machine.pop
      return .call machine callee args none none
  | .slice => do
      let (last, machine) ← machine.pop
      let (first, machine) ← machine.pop
      let (subject, machine) ← machine.pop
      let draft ← orFault (Operator.slice heap subject first last)
      return .produce machine draft
  | .buildList => do
      let count ← countOperand heap op instr.first
      let (items, machine) ← machine.popMany count
      return .produce machine (.list items.toArray)
  | .buildMap => do
      let count ← countOperand heap op instr.first
      let (flat, machine) ← machine.popMany (count * 2)
      return .produce machine (.map { entries := heap.withEntries [] (pairUp flat) })
  | .binary => do
      let binary ← opOperand heap op instr.first
      let (right, machine) ← machine.pop
      let (left, machine) ← machine.pop
      let draft ← orFault (world.binary binary left right)
      return .produce machine draft
  | .compareKeep => do
      let binary ← opOperand heap op instr.first
      let (right, machine) ← machine.pop
      let (left, machine) ← machine.pop
      let draft ← orFault (world.binary binary left right)
      return .produce (machine.push right) draft
  | .negate => do
      let (value, machine) ← machine.pop
      let negated ← orFault (Operator.negate value)
      return .proceed (machine.push negated)
  | .not => do
      let (value, machine) ← machine.pop
      return .proceed (machine.push (.truth (!heap.isTruthy value)))
  | .new => do
      let (parent, machine) ← machine.pop
      let draft ← orFault (Operator.instantiate parent)
      return .produce machine draft
  | .pop => do
      let (_, machine) ← machine.pop
      return .proceed machine
  | .dup2 =>
      match machine.stack with
      | top :: below :: _ => .ok (.proceed { machine with stack := top :: below :: machine.stack })
      | _ => .error (.internal .underflow)
  | .jump => do
      let address ← addressOperand heap instr.first
      return .proceed (machine.jump address)
  | .jumpIfFalse => do
      let (value, machine) ← machine.pop
      if heap.isTruthy value then return .proceed machine
      else do
        let address ← addressOperand heap instr.first
        return .proceed (machine.jump address)
  | .jumpIfTrue => do
      let (value, machine) ← machine.pop
      if heap.isTruthy value then do
        let address ← addressOperand heap instr.first
        return .proceed (machine.jump address)
      else return .proceed machine
  | .return => do
      let (value, machine) ← machine.pop
      return .proceed (machine.leave value)
  | .createForLoop => do
      let id ← loopOperand heap op instr.first
      let var ← nameOperand heap op instr.second
      let (subject, machine) ← machine.pop
      let (items, source) ← orFault (loopItems heap subject)
      return .proceed { machine with frame := machine.frame.putLoop { id, var, items, source } }
  | .iterateForLoop => do
      let id ← loopOperand heap op instr.first
      let exit ← addressOperand heap instr.second
      let loop ← machine.activeLoop id
      return planTurn world machine position exit loop
  | .breakForLoop => do
      let id ← loopOperand heap op instr.first
      let loop ← machine.activeLoop id
      return .proceed
        { machine with frame := { machine.frame.dropLoop id with position := loop.exit } }
  | .continueForLoop => do
      let id ← loopOperand heap op instr.first
      let loop ← machine.activeLoop id
      return .proceed (machine.jump loop.start)

/-- The instruction failed. -/
def refuse (fault : Fault) (world : World σ) : Outcome σ :=
  (.error (.runtime { fault }), world)

/-- Begins to wait for a deferred result. -/
def suspend (machine : Machine) (ref : DeferredRef) (world : World σ) : Outcome σ :=
  let waiter := world.suspensions
  let world := world.modifyDeferred ref fun deferred => deferred.onReady waiter
  (.ok { machine with status := .suspended, wait? := some ⟨ref, waiter⟩ },
    { world with suspensions := waiter + 1 })

/-- Takes the reply of a native. -/
def receive (machine : Machine) (reply : Reply) (world : World σ) : Outcome σ :=
  let machine := { machine with yieldRequested := reply.yields, lastCallNative := true }
  match reply.answer with
  | .ready value => (.ok (machine.push value), world)
  | .pending ref => machine.suspend ref world

/-- Takes the outcome of a native. -/
def receiveOutcome (machine : Machine) :
    Except RuntimeError Reply × World σ → Outcome σ
  | (.ok reply, world) => machine.receive reply world
  | (.error error, world) => (.error (.runtime error), world)

/-- The variables that a call starts with: the parameters, the receiver, and the parent of the map
the method was found in. -/
def callVars (heap : Heap) (definition : Definition) (bound : List Value)
    (receiver : Option Value) (owner : Option MapRef) : List (String × Value) :=
  (definition.params.map (·.name)).zip bound ++
    (receiver.map fun receiver => (selfName, receiver)).toList ++
    ((owner.bind heap.isaParent?).map fun parent => (superName, Value.map parent)).toList

/-- Enters the code of a script function. -/
def enter (machine : Machine) (code : Code) (outer : Option ScopeRef)
    (vars : List (String × Value)) (world : World σ) : Outcome σ :=
  if world.limits.maxCallDepth ≤ machine.depth then
    refuse (.callStackTooDeep world.limits.maxCallDepth) world
  else
    let scope := world.heap.nextScope
    let parent := outer.getD world.globals
    (.ok { machine with
        frame := { code, scope }
        callers := machine.frame :: machine.callers },
      world.modifyHeap fun heap => heap.addScope (some parent) (MapObject.ofNames vars))

/-- Calls a function whose arguments have been bound. -/
def invoke (host : Host σ) (machine : Machine) (definition : Definition) (outer : Option ScopeRef)
    (bound : List Value) (receiver : Option Value) (owner : Option MapRef) (world : World σ) :
    Outcome σ :=
  let call : Invocation := { definition, args := bound, scope := machine.frame.scope }
  match definition.body with
  | .script code =>
      machine.enter code outer (callVars world.heap definition bound receiver owner) world
  | .builtin builtin =>
      match Library.effect world builtin call with
      | .ok effect =>
          let (reply, world) := Library.apply effect world
          machine.receive reply world
      | .error fault => refuse fault world
  | .importer => machine.receiveOutcome (Library.importModule host call world)
  | .host id => machine.receiveOutcome (host.call id call world)

/-- Calls a value. -/
def call (host : Host σ) (machine : Machine) (callee : Value) (args : List Value)
    (receiver : Option Value) (owner : Option MapRef) (world : World σ) : Outcome σ :=
  match callee with
  | .function closure =>
      let definition := world.heap.definition closure.definition
      match bindArguments definition args receiver with
      | .ok bound => machine.invoke host definition closure.outer bound receiver owner world
      | .error fault => refuse fault world
  | other =>
      if args.isEmpty then (.ok (machine.push other), world)
      else refuse (.cannotCall other.kind) world

/-- Carries out an action. -/
def perform (host : Host σ) (action : Action) (world : World σ) : Outcome σ :=
  match action with
  | .proceed next => (.ok next, world)
  | .produce next draft =>
      let value := draft.valueIn world.heap
      (.ok (next.push value), world.modifyHeap draft.addTo)
  | .store next map key draft =>
      let value := draft.valueIn world.heap
      match (world.modifyHeap draft.addTo).store host map key value with
      | (.ok _, world) => (.ok next, world)
      | (.error error, world) => (.error (.runtime error), world)
  | .replaceItem next list index value =>
      (.ok next, world.modifyHeap fun heap =>
        heap.modifyItems list fun items => items.setIfInBounds index value)
  | .call next callee args receiver owner => next.call host callee args receiver owner world

end Machine

end MiniScript
