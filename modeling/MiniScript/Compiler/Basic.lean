import MiniScript.Code.Builder
import MiniScript.Function.Basic

/-!
# Compiling programs

Every expression leaves exactly one value on the operand stack and every
statement leaves the stack as it found it. The compiler walks a tree and hands
the instructions to a builder, with a source bracket around each statement. A
jump aims at a label, which is bound when its place is reached. The body of a
function literal is compiled by itself and added to the table of definitions.
-/

namespace MiniScript

/-- Whether an expression is the bare word for the parent of a method's owner. -/
def Expr.isSuper : Expr → Bool
  | .super _ _ => true
  | _ => false

/-- Whether an identifier names one of the variable maps. -/
def Ident.isScope (ident : Ident) : Bool :=
  (ScopeKind.ofName? ident.name).isSome

namespace Compiler

/-- What a program, a function and a module do at the end of their code. -/
inductive BodyKind where
  | program | function | module
deriving DecidableEq, Repr

/-- Where `break` and `continue` lead in a loop. -/
inductive LoopTarget where
  | whileLoop (start stop : Label)
  | forLoop (id : UInt32)
deriving DecidableEq, Repr

/-- Whether a name, member or index is invoked or only read. -/
inductive Mode where
  | invoke | read
deriving DecidableEq, Repr

/-- The code of a body so far, the loops around the current place with the innermost first, and the
number of the next `for` loop. The definitions are those of all bodies. -/
structure State where
  builder : Builder
  loops : List LoopTarget := []
  nextLoop : UInt32 := 0
  functions : Array Definition

/-- At the start of a body. -/
def State.start (sourceName : Option String) (functions : Array Definition) : State where
  builder := { sourceName }
  functions

end Compiler

/-- A computation that writes code. -/
abbrev Compile := StateT Compiler.State (Except CompileError)

namespace Compiler

def reject {σ α : Type} (fault : CompileFault) (line : Nat) : StateT σ (Except CompileError) α :=
  throw ⟨fault, line⟩

def build (change : Builder → Builder) : Compile Unit :=
  modify fun state => { state with builder := change state.builder }

def emit (instr : Instr) : Compile Unit :=
  build fun builder => builder.emit instr

def emitAll (instrs : List Instr) : Compile Unit :=
  build fun builder => instrs.foldl Builder.emit builder

/-- Writes an instruction that belongs to no line. -/
def emitUnmapped (instr : Instr) : Compile Unit :=
  build fun builder => builder.emitUnmapped instr

def openSource (line : Nat) : Compile Unit :=
  build fun builder => builder.openSource line

def closeSource : Compile Unit :=
  build Builder.closeSource

def newLabel : Compile Label := do
  let state ← get
  let (label, builder) := state.builder.newLabel
  set { state with builder }
  return label

/-- Puts a label at the current place. -/
def bindLabel (label : Label) : Compile Unit := do
  let state ← get
  let builder ← state.builder.bind label
  set { state with builder }

/-- The number of a new loop. Numbers have thirty-two bits and begin anew after the last. -/
def newLoop : Compile UInt32 := do
  let state ← get
  set { state with nextLoop := state.nextLoop + 1 }
  return state.nextLoop

def enterLoop (target : LoopTarget) : Compile Unit :=
  modify fun state => { state with loops := target :: state.loops }

def leaveLoop : Compile Unit :=
  modify fun state => { state with loops := state.loops.tail }

def innermostLoop : Compile (Option LoopTarget) := do
  return (← get).loops.head?

/-- Begins a body of its own, with the definitions so far, and gives what it interrupts. -/
def beginBody (sourceName : Option String) : Compile State := do
  let outer ← get
  set (State.start sourceName outer.functions)
  return outer

/-- Goes back to what a body has interrupted, with the definitions that there are by now. -/
def resumeBody (outer : State) : Compile Unit :=
  modify fun inner => { outer with functions := inner.functions }

def addFunction (definition : Definition) : Compile FunctionRef := do
  let state ← get
  set { state with functions := state.functions.push definition }
  return ⟨state.functions.size⟩

def pushValue (value : Value) : Instr :=
  { op := .pushValue, first := .value value }

def withCount (op : Opcode) (count : Nat) : Instr :=
  { op, first := .int count }

def jumpToward (op : Opcode) (label : Label) : Instr :=
  { op, first := .label label }

/-- The value of a literal, possibly with a minus sign. -/
def literalValue? : Expr → Option Value
  | .number value _ _ => some (.number value)
  | .text value _ _ => some (.text value)
  | .bool value _ _ => some (.truth value)
  | .null _ _ => some .null
  | .unary .neg _ _ operand =>
      match literalValue? operand with
      | some (.number value) => some (.number (-value))
      | _ => none
  | _ => none

def compileParams : List Param → Except CompileError (List Parameter)
  | [] => return []
  | .mk _ ident none :: rest => do
      let rest ← compileParams rest
      return ⟨ident.name, .null⟩ :: rest
  | .mk _ ident (some default) :: rest =>
      match literalValue? default with
      | none => throw ⟨.nonLiteralDefault ident.name, default.line⟩
      | some value => do
          let rest ← compileParams rest
          return ⟨ident.name, value⟩ :: rest

/-- The instruction for a variable by itself. -/
def nameInstr (mode : Mode) (name : String) : Instr :=
  match ScopeKind.ofName? name with
  | some scope => { op := .pushScope, first := .scope scope }
  | none =>
      match mode with
      | .invoke => { op := .callVar, first := .name name, second := .int 0 }
      | .read => { op := .loadVar, first := .name name }

/-- The instruction for a member or an index of the value below the key. -/
def indexInstr : Mode → Instr
  | .invoke => withCount .callIndex 0
  | .read => { op := .loadIndex }

/-- The instruction for a member of the parent. -/
def superInstr : Mode → Instr
  | .invoke => withCount .callSuper 0
  | .read => { op := .loadSuperIndex }

def unaryOpcode : UnaryOp → Opcode
  | .neg => .negate
  | .not => .not
  | .new => .new

/-- The jump that ends a logic operator early, the value it then has, and the other value. -/
def logicParts : LogicOp → Opcode × Value × Value
  | .and => (.jumpIfFalse, .truth false, .truth true)
  | .or => (.jumpIfTrue, .truth true, .truth false)

/-- Reads the value a compound store starts from; the base and the key stay. -/
def beforeStore : Option BinaryOp → List Instr
  | none => []
  | some _ => [{ op := .dup2 }, withCount .callIndex 0]

def combine : Option BinaryOp → List Instr
  | none => []
  | some op => [{ op := .binary, first := .op op }]

/-- What follows the last statement of a body, unless that is a `return`. -/
def closing : BodyKind → List Instr
  | .program => []
  | .function => [pushValue .null, { op := .return }]
  | .module => [{ op := .pushScope, first := .scope .locals }, { op := .return }]

def endsInReturn (stmts : List Stmt) : Bool :=
  match stmts.getLast? with
  | some (.returnValue ..) => true
  | _ => false

/-- The code of a body whose statements have been compiled. -/
def finishBody (kind : BodyKind) (stmts : List Stmt) : Compile Code := do
  emitAll (if endsInReturn stmts then [] else closing kind)
  (← get).builder.finish

section

variable (sourceName : Option String)

mutual

def compileExpr (mode : Mode) : Expr → Compile Unit
  | .number value _ _ => emit (pushValue (.number value))
  | .text value _ _ => emit (pushValue (.text value))
  | .bool value _ _ => emit (pushValue (.truth value))
  | .null _ _ => emit (pushValue .null)
  | .name ident => emit (nameInstr mode ident.name)
  | .self _ _ => emit { op := .loadVar, first := .name selfName }
  | .super _ _ => emit { op := .loadVar, first := .name superName }
  | .unary op _ _ operand => do
      compileExpr .invoke operand
      emit { op := unaryOpcode op }
  | .binary left op _ _ right => do
      compileExpr .invoke left
      compileExpr .invoke right
      emit { op := .binary, first := .op op }
  | .logic left op _ _ right => do
      let (leave, early, full) := logicParts op
      let short ← newLabel
      let stop ← newLabel
      compileExpr .invoke left
      emit (jumpToward leave short)
      compileExpr .invoke right
      emitAll [jumpToward leave short, pushValue full, jumpToward .jump stop]
      bindLabel short
      emit (pushValue early)
      bindLabel stop
  | .chain _ _ [] _ => emit (pushValue .null)
  | .chain _ _ (first :: rest) ops =>
      if rest.length = ops.length then do
        let failure ← newLabel
        let stop ← newLabel
        compileExpr .invoke first
        compileLinks failure (ops.map (·.1)) rest
        emit (jumpToward .jump stop)
        bindLabel failure
        emitAll [{ op := .pop }, pushValue (.truth false)]
        bindLabel stop
      else reject .chainMismatch first.line
  | .group _ _ inner => compileExpr mode inner
  | .list _ _ items => do
      compileExprs items
      emit (withCount .buildList items.length)
  | .map _ _ entries => do
      compileEntries entries
      emit (withCount .buildMap entries.length)
  | .index _ _ base index => do
      compileExpr .invoke base
      compileExpr .invoke index
      emit (indexInstr mode)
  | .member base field _ =>
      if base.isSuper then emitAll [pushValue (.text field.name), superInstr mode]
      else do
        compileExpr .invoke base
        emitAll [pushValue (.text field.name), indexInstr mode]
  | .slice _ _ base first last => do
      compileExpr .invoke base
      compileBound first
      compileBound last
      emit { op := .slice }
  | .call span _ (.name ident) args =>
      if mode = .read then reject .referenceToCall span.line
      else if ident.isScope then do
        emit (nameInstr .invoke ident.name)
        compileExprs args
        emit (withCount .callValue args.length)
      else do
        compileExprs args
        emit { op := .callVar, first := .name ident.name, second := .int args.length }
  | .call span _ (.member base field _) args =>
      if mode = .read then reject .referenceToCall span.line
      else if base.isSuper then do
        emit (pushValue (.text field.name))
        compileExprs args
        emit (withCount .callSuper args.length)
      else do
        compileExpr .invoke base
        emit (pushValue (.text field.name))
        compileExprs args
        emit (withCount .callIndex args.length)
  | .call span _ (.index _ _ base index) args =>
      if mode = .read then reject .referenceToCall span.line
      else do
        compileExpr .invoke base
        compileExpr .invoke index
        compileExprs args
        emit (withCount .callIndex args.length)
  | .call span _ callee args =>
      if mode = .read then reject .referenceToCall span.line
      else do
        compileExpr .invoke callee
        compileExprs args
        emit (withCount .callValue args.length)
  | .reference _ _ inner => compileExpr .read inner
  | .function _ _ params body => do
      let params ← compileParams params
      let outer ← beginBody sourceName
      compileStmts body
      let code ← finishBody .function body
      resumeBody outer
      let ref ← addFunction { name := none, params, body := .script code }
      emit { op := .pushFunction, first := .func ref }

/-- The operands of a chain after the first, each with its comparison. All but the last comparison
keep their right operand and may end the chain. -/
def compileLinks (failure : Label) : List BinaryOp → List Expr → Compile Unit
  | op :: ops, item :: rest => do
      compileExpr .invoke item
      if rest.isEmpty then emit { op := .binary, first := .op op }
      else emitAll [{ op := .compareKeep, first := .op op }, jumpToward .jumpIfFalse failure]
      compileLinks failure ops rest
  | _, _ => return

def compileExprs : List Expr → Compile Unit
  | [] => return
  | item :: rest => do
      compileExpr .invoke item
      compileExprs rest

def compileEntries : List (Expr × Expr) → Compile Unit
  | [] => return
  | (key, value) :: rest => do
      compileExpr .invoke key
      compileExpr .invoke value
      compileEntries rest

/-- A missing bound or value is null. -/
def compileBound : Option Expr → Compile Unit
  | none => emit (pushValue .null)
  | some bound => compileExpr .invoke bound

/-- A statement inside its source bracket. -/
def compileStmt : Stmt → Compile Unit
  | .expr _ value => do
      compileExpr .invoke value
      emit { op := .pop }
  | .assign _ (.name ident) none value => do
      compileExpr .invoke value
      emit { op := .assignVar, first := .name ident.name }
  | .assign _ (.name ident) (some op) value => do
      emit (nameInstr .invoke ident.name)
      compileExpr .invoke value
      emitAll [{ op := .binary, first := .op op }, { op := .assignVar, first := .name ident.name }]
  | .assign _ (.member base field _) op value => do
      compileExpr .invoke base
      emit (pushValue (.text field.name))
      emitAll (beforeStore op)
      compileExpr .invoke value
      emitAll (combine op ++ [{ op := .assignIndex }])
  | .assign _ (.index _ _ base index) op value => do
      compileExpr .invoke base
      compileExpr .invoke index
      emitAll (beforeStore op)
      compileExpr .invoke value
      emitAll (combine op ++ [{ op := .assignIndex }])
  | .assign _ target _ _ => reject .invalidTarget target.line
  | .ifElse _ _ condition thenBranch none => do
      let stop ← newLabel
      compileExpr .invoke condition
      emit (jumpToward .jumpIfFalse stop)
      compileStmts thenBranch
      bindLabel stop
  | .ifElse _ _ condition thenBranch (some elseBranch) => do
      let other ← newLabel
      compileExpr .invoke condition
      emit (jumpToward .jumpIfFalse other)
      compileStmts thenBranch
      let stop ← newLabel
      emitUnmapped (jumpToward .jump stop)
      bindLabel other
      compileStmts elseBranch
      bindLabel stop
  | .whileLoop _ _ condition body => do
      let start ← newLabel
      let stop ← newLabel
      bindLabel start
      compileExpr .invoke condition
      emit (jumpToward .jumpIfFalse stop)
      enterLoop (.whileLoop start stop)
      compileStmts body
      leaveLoop
      emit (jumpToward .jump start)
      bindLabel stop
  | .forLoop _ _ var iter body => do
      let id ← newLoop
      let next ← newLabel
      let stop ← newLabel
      compileExpr .invoke iter
      emit { op := .createForLoop, first := .int id.toNat, second := .name var.name }
      bindLabel next
      emit { op := .iterateForLoop, first := .int id.toNat, second := .label stop }
      enterLoop (.forLoop id)
      compileStmts body
      leaveLoop
      emit (jumpToward .jump next)
      bindLabel stop
  | .breakLoop _ span => do
      match ← innermostLoop with
      | some (.whileLoop _ stop) => emit (jumpToward .jump stop)
      | some (.forLoop id) => emit (withCount .breakForLoop id.toNat)
      | none => reject .breakOutsideLoop span.line
  | .continueLoop _ span => do
      match ← innermostLoop with
      | some (.whileLoop start _) => emit (jumpToward .jump start)
      | some (.forLoop id) => emit (withCount .continueForLoop id.toNat)
      | none => reject .continueOutsideLoop span.line
  | .returnValue _ _ value => do
      compileBound value
      emit { op := .return }

/-- The statements one after the other, each in a bracket with its line. -/
def compileStmts : List Stmt → Compile Unit
  | [] => return
  | stmt :: rest => do
      openSource stmt.line
      compileStmt stmt
      closeSource
      compileStmts rest

end

/-- The code of a body, with the definitions of the functions in it. -/
def compileBody (kind : BodyKind) (stmts : List Stmt) (functions : Array Definition) :
    Except CompileError (Code × Array Definition) := do
  let body : Compile Code := do
    compileStmts sourceName stmts
    finishBody kind stmts
  let (code, state) ← body.run (.start sourceName functions)
  return (code, state.functions)

/-- The code of a program. -/
def compileProgram (stmts : List Stmt) (functions : Array Definition) :
    Except CompileError (Code × Array Definition) :=
  compileBody sourceName .program stmts functions

/-- The code that calls the body of a module and binds its result, the local variables unless it
returns something else, to the name of the module. -/
def compileModule (module : String) (stmts : List Stmt) (functions : Array Definition) :
    Except CompileError (Code × Array Definition) := do
  let (body, functions) ← compileBody sourceName .module stmts functions
  let line := match stmts with
    | [] => 1
    | stmt :: _ => stmt.line
  let ref : FunctionRef := ⟨functions.size⟩
  let functions := functions.push { name := none, params := [], body := .script body }
  let builder : Builder := { sourceName }
  let opened := builder.openSource line
  let called := (opened.emit { op := .pushFunction, first := .func ref }).emit
    (withCount .callValue 0)
  let bound := called.emit { op := .assignVar, first := .name module }
  let code ← bound.closeSource.finish
  return (code, functions)

end

end Compiler

end MiniScript
