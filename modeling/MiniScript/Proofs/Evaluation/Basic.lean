import MiniScript.Proofs.Machine.Action

/-!
# What a program means without its code

The plain part of the language, without functions and calls, has a meaning by
recursion on the tree. An evaluation changes the world and gives a value, the way a
statement ends, or a runtime error. It has no result where the program leaves the
plain part or comes upon a function, which would be called, nor when a `while` loop
has used up its rounds.
-/

namespace MiniScript

/-- How a statement ends. -/
inductive Signal where
  | normal | broke | continued
deriving DecidableEq, Repr

/-- A computation on the world that can fail, and that can be without a result. -/
abbrev Evaluation (σ : Type) := ExceptT RuntimeError (StateT (World σ) Option)

namespace Evaluation

variable {σ α : Type}

/-- What is not part of the plain language. -/
def outside : Evaluation σ α :=
  ExceptT.mk fun _ => none

/-- Looks at the world. -/
def consult (read : World σ → Except Fault α) : Evaluation σ α :=
  ExceptT.mk fun world => some ((read world).mapError fun fault => { fault }, world)

/-- Puts a draft into the heap. -/
def place (draft : Draft) : Evaluation σ Value :=
  ExceptT.mk fun world => some (.ok (draft.valueIn world.heap), world.modifyHeap draft.addTo)

/-- Stores in a map; an interceptor can refuse. -/
def store (host : Host σ) (map : MapRef) (key value : Value) : Evaluation σ Unit :=
  ExceptT.mk fun world => some (world.store host map key value)

/-- Replaces an item of a list. -/
def replaceItem (list : ListRef) (index : Nat) (value : Value) : Evaluation σ Unit :=
  ExceptT.mk fun world => some (.ok (), world.modifyHeap fun heap =>
    heap.modifyItems list fun items => items.setIfInBounds index value)

/-- A value that is no function. -/
def plain : Value → Evaluation σ Value
  | .function _ => outside
  | value => pure value

def holds (value : Value) : Evaluation σ Bool :=
  consult fun world => .ok (world.heap.isTruthy value)

/-- The truth of an operand that decides the result of an operator by itself. -/
def decisive : LogicOp → Bool
  | .and => false
  | .or => true

def unary (op : UnaryOp) (value : Value) : Evaluation σ Value :=
  match op with
  | .neg => consult fun _ => Operator.negate value
  | .not => consult fun world => .ok (.truth (!world.heap.isTruthy value))
  | .new => do
      let draft ← consult fun _ => Operator.instantiate value
      place draft

def binary (op : BinaryOp) (left right : Value) : Evaluation σ Value := do
  let draft ← consult fun world => world.binary op left right
  place draft

def memberOf (subject key : Value) : Evaluation σ Value := do
  let member ← consult fun world => world.member subject key
  plain member.value

/-- A store by key or by position. -/
def assignIndex (host : Host σ) (subject key value : Value) : Evaluation σ Unit :=
  match subject with
  | .map map => store host map key value
  | .list list =>
      match key with
      | .number index => do
          let position ← consult fun world => Sequence.position index (world.heap.items list).size
          replaceItem list position value
      | key => consult fun _ => .error (.listIndex key.kind)
  | .text _ => consult fun _ => .error .immutableText
  | other => consult fun _ => .error (.cannotStore other.kind)

/-- A store to a member or an index whose base and key have been evaluated. -/
def assignAt (host : Host σ) (op : Option BinaryOp) (subject key : Value)
    (value : Evaluation σ Value) : Evaluation σ Unit :=
  match op with
  | none => do
      let new ← value
      assignIndex host subject key new
  | some op => do
      let old ← memberOf subject key
      let operand ← value
      let new ← binary op old operand
      assignIndex host subject key new

/-- A `while` loop of at most that many rounds. -/
def repeatWhile (condition : Evaluation σ Bool) (body : Evaluation σ Signal) :
    Nat → Evaluation σ Unit
  | 0 => outside
  | rounds + 1 => do
      if ← condition then
        match ← body with
        | .broke => pure ()
        | _ => repeatWhile condition body rounds
      else pure ()

/-- A `for` loop over items. -/
def forEach (bind : Value → Evaluation σ Unit) (body : Evaluation σ Signal) :
    List Value → Evaluation σ Unit
  | [] => pure ()
  | item :: rest => do
      bind item
      match ← body with
      | .broke => pure ()
      | _ => forEach bind body rest

section

variable (host : Host σ) (scope : ScopeRef)

/-- A name: a map of variables, or the value of the nearest variable. -/
def lookUp (name : String) : Evaluation σ Value :=
  match ScopeKind.ofName? name with
  | some kind => consult fun world => .ok (.map (Machine.scopeVars world scope kind))
  | none => do
      let value ← consult fun world =>
        match world.resolve? scope name with
        | some value => .ok value
        | none => .error (.undefined name)
      plain value

/-- Where there is no receiver, it is null. -/
def receiver : Evaluation σ Value :=
  consult fun world => .ok ((world.resolve? scope selfName).getD .null)

def assignVar (name : String) (value : Value) : Evaluation σ Unit := do
  let vars ← consult fun world => .ok (world.heap.vars scope)
  store host vars (.text name) value

/-- Binds the variable of a loop to an item, or to a key with its present value. -/
def bindItem (var : String) (source : Option MapRef) (item : Value) : Evaluation σ Unit := do
  let (vars, draft) ← consult fun world =>
    .ok (world.heap.vars scope, Machine.loopValue world.heap source item)
  let value ← place draft
  store host vars (.text var) value

mutual

def expr : Expr → Evaluation σ Value
  | .number value _ _ => pure (.number value)
  | .text value _ _ => pure (.text value)
  | .bool value _ _ => pure (.truth value)
  | .null _ _ => pure .null
  | .name ident => lookUp scope ident.name
  | .self _ _ => receiver scope
  | .super _ _ => outside
  | .unary op _ _ operand => do
      let value ← expr operand
      unary op value
  | .binary left op _ _ right => do
      let first ← expr left
      let second ← expr right
      binary op first second
  | .logic left op _ _ right => do
      let first ← expr left
      let truthy ← holds first
      if truthy = decisive op then return .truth truthy
      else
        let second ← expr right
        let truthy ← holds second
        return .truth truthy
  | .chain _ _ [] _ => pure .null
  | .chain _ _ (first :: rest) ops => do
      let value ← expr first
      let (complete, last) ← links value (ops.map (·.1)) rest
      return if complete then last else .truth false
  | .group _ _ inner => expr inner
  | .list _ _ items => do
      let values ← exprs items
      place (.list values.toArray)
  | .map _ _ pairs => do
      let values ← entries pairs
      let draft ← consult fun world =>
        .ok (.map { entries := world.heap.withEntries [] values })
      place draft
  | .index _ _ base index => do
      let subject ← expr base
      let key ← expr index
      memberOf subject key
  | .member base field _ =>
      if base.isSuper then outside
      else do
        let subject ← expr base
        memberOf subject (.text field.name)
  | .slice _ _ base first last => do
      let subject ← expr base
      let low ← bound first
      let high ← bound last
      let draft ← consult fun world => Operator.slice world.heap subject low high
      place draft
  | .call .. => outside
  | .reference .. => outside
  | .function .. => outside

/-- The links of a comparison chain: whether all but the last hold, and then the value of the last;
otherwise the right operand of the first that fails. -/
def links (left : Value) : List BinaryOp → List Expr → Evaluation σ (Bool × Value)
  | op :: ops, item :: rest => do
      let right ← expr item
      let value ← binary op left right
      if rest.isEmpty then return (true, value)
      else if ← holds value then links right ops rest
      else return (false, right)
  | _, _ => return (true, left)

def exprs : List Expr → Evaluation σ (List Value)
  | [] => return []
  | item :: rest => do
      let value ← expr item
      let values ← exprs rest
      return value :: values

def entries : List (Expr × Expr) → Evaluation σ (List (Value × Value))
  | [] => return []
  | (key, value) :: rest => do
      let first ← expr key
      let second ← expr value
      let pairs ← entries rest
      return (first, second) :: pairs

/-- A missing bound is null. -/
def bound : Option Expr → Evaluation σ Value
  | none => return .null
  | some bound => expr bound

end

variable (rounds : Nat)

mutual

def stmt : Stmt → Evaluation σ Signal
  | .expr _ value => do
      let _ ← expr scope value
      return .normal
  | .assign _ (.name ident) none value => do
      let new ← expr scope value
      assignVar host scope ident.name new
      return .normal
  | .assign _ (.name ident) (some op) value => do
      let old ← lookUp scope ident.name
      let operand ← expr scope value
      let new ← binary op old operand
      assignVar host scope ident.name new
      return .normal
  | .assign _ (.member base field _) op value => do
      let subject ← expr scope base
      assignAt host op subject (.text field.name) (expr scope value)
      return .normal
  | .assign _ (.index _ _ base index) op value => do
      let subject ← expr scope base
      let key ← expr scope index
      assignAt host op subject key (expr scope value)
      return .normal
  | .assign .. => outside
  | .ifElse _ _ condition thenBranch none => do
      let test ← expr scope condition
      if ← holds test then stmts thenBranch else return .normal
  | .ifElse _ _ condition thenBranch (some elseBranch) => do
      let test ← expr scope condition
      if ← holds test then stmts thenBranch else stmts elseBranch
  | .whileLoop _ _ condition body => do
      let again : Evaluation σ Bool := do
        let test ← expr scope condition
        holds test
      repeatWhile again (stmts body) rounds
      return .normal
  | .forLoop _ _ var iter body => do
      let subject ← expr scope iter
      let (items, source) ← consult fun world => Machine.loopItems world.heap subject
      forEach (bindItem host scope var.name source) (stmts body) items.toList
      return .normal
  | .breakLoop .. => return .broke
  | .continueLoop .. => return .continued
  | .returnValue .. => outside

/-- The statements up to the first that does not end normally. -/
def stmts : List Stmt → Evaluation σ Signal
  | [] => return .normal
  | first :: rest => do
      match ← stmt first with
      | .normal => stmts rest
      | signal => return signal

end

end

end Evaluation

end MiniScript
