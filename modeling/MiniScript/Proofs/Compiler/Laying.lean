import MiniScript.Compiler.Basic

/-!
# Laying out the code of a tree

The size of the code of an expression or statement does not depend on where the
code stands, so the target of a forward jump can be told before the code between
is written. Here the code of a tree is laid out so, without labels: the code of an
expression that starts at a position is a list of instructions, and that of a
statement a list of builder steps, with a source bracket around it. Every address
is computed from sizes.
-/

namespace MiniScript

namespace Compiler

mutual

def exprSize : Expr → Nat
  | .number .. => 1
  | .text .. => 1
  | .bool .. => 1
  | .null .. => 1
  | .name _ => 1
  | .self .. => 1
  | .super .. => 1
  | .unary _ _ _ operand => exprSize operand + 1
  | .binary left _ _ _ right => exprSize left + exprSize right + 1
  | .logic left _ _ _ right => exprSize left + exprSize right + 5
  | .chain _ _ [] _ => 1
  | .chain _ _ (first :: rest) _ => exprSize first + linksSize rest + 3
  | .group _ _ inner => exprSize inner
  | .list _ _ items => exprsSize items + 1
  | .map _ _ entries => entriesSize entries + 1
  | .index _ _ base index => exprSize base + exprSize index + 1
  | .member base _ _ => if base.isSuper then 2 else exprSize base + 2
  | .slice _ _ base first last => exprSize base + boundSize first + boundSize last + 1
  | .call _ _ (.name ident) args => (if ident.isScope then 1 else 0) + exprsSize args + 1
  | .call _ _ (.member base _ _) args =>
      (if base.isSuper then 1 else exprSize base + 1) + exprsSize args + 1
  | .call _ _ (.index _ _ base index) args =>
      exprSize base + exprSize index + exprsSize args + 1
  | .call _ _ callee args => exprSize callee + exprsSize args + 1
  | .reference _ _ inner => exprSize inner
  | .function .. => 1

/-- The operands of a chain after the first, each with its comparison. -/
def linksSize : List Expr → Nat
  | [] => 0
  | item :: rest => exprSize item + (if rest.isEmpty then 1 else 2) + linksSize rest

def exprsSize : List Expr → Nat
  | [] => 0
  | item :: rest => exprSize item + exprsSize rest

def entriesSize : List (Expr × Expr) → Nat
  | [] => 0
  | (key, value) :: rest => exprSize key + exprSize value + entriesSize rest

/-- The bound of a slice; a missing one is null. -/
def boundSize : Option Expr → Nat
  | none => 1
  | some bound => exprSize bound

end

/-- A store to a member or an index, after its base and key. -/
def storeSize (op : Option BinaryOp) (value : Nat) : Nat :=
  match op with
  | none => value + 1
  | some _ => value + 4

mutual

def stmtSize : Stmt → Nat
  | .expr _ value => exprSize value + 1
  | .assign _ (.name _) none value => exprSize value + 1
  | .assign _ (.name _) (some _) value => exprSize value + 3
  | .assign _ (.member base _ _) op value => exprSize base + 1 + storeSize op (exprSize value)
  | .assign _ (.index _ _ base index) op value =>
      exprSize base + exprSize index + storeSize op (exprSize value)
  | .assign .. => 0
  | .ifElse _ _ condition thenBranch none => exprSize condition + 1 + stmtsSize thenBranch
  | .ifElse _ _ condition thenBranch (some elseBranch) =>
      exprSize condition + 1 + stmtsSize thenBranch + 1 + stmtsSize elseBranch
  | .whileLoop _ _ condition body => exprSize condition + 1 + stmtsSize body + 1
  | .forLoop _ _ _ iter body => exprSize iter + 2 + stmtsSize body + 1
  | .breakLoop .. => 1
  | .continueLoop .. => 1
  | .returnValue _ _ value => boundSize value + 1

def stmtsSize : List Stmt → Nat
  | [] => 0
  | stmt :: rest => stmtSize stmt + stmtsSize rest

end

/-- Where `break` and `continue` lead in the innermost loop. -/
inductive LoopPlace where
  | whileLoop (start stop : Nat)
  | forLoop (id : Nat)

/-- The definitions so far, and how many `for` loops of the body there have been. -/
structure LayState where
  functions : Array Definition
  nextLoop : Nat

end Compiler

/-- A computation that lays code out. -/
abbrev Lay := StateT Compiler.LayState (Except CompileError)

namespace Compiler

/-- The number of a new loop, which has thirty-two bits. -/
def takeLoop : Lay Nat := do
  let state ← get
  set { state with nextLoop := state.nextLoop + 1 }
  return state.nextLoop % UInt32.size

def takeFunction (definition : Definition) : Lay FunctionRef := do
  let state ← get
  set { state with functions := state.functions.push definition }
  return ⟨state.functions.size⟩

def jumpTo (op : Opcode) (address : Nat) : Instr :=
  { op, first := .addr address }

def emitSteps (instrs : List Instr) : List Builder.Step :=
  instrs.map .emit

/-- The comparison of one link; all but the last keep their right operand and may end the chain. -/
def linkInstrs (op : BinaryOp) (isLast : Bool) (failure : Nat) : List Instr :=
  if isLast then [{ op := .binary, first := .op op }]
  else [{ op := .compareKeep, first := .op op }, jumpTo .jumpIfFalse failure]

/-- The code that the steps of a body assemble. -/
def assemble (sourceName : Option String) (kind : BodyKind) (stmts : List Stmt)
    (steps : List Builder.Step) : Except CompileError Code :=
  let tail := if endsInReturn stmts then [] else emitSteps (closing kind)
  (Builder.applyAll { sourceName } (steps ++ tail)).finish

section

variable (sourceName : Option String)

mutual

/-- The code of an expression that starts at `position`. -/
def layExpr (mode : Mode) (position : Nat) : Expr → Lay (List Instr)
  | .number value _ _ => return [pushValue (.number value)]
  | .text value _ _ => return [pushValue (.text value)]
  | .bool value _ _ => return [pushValue (.truth value)]
  | .null _ _ => return [pushValue .null]
  | .name ident => return [nameInstr mode ident.name]
  | .self _ _ => return [{ op := .loadVar, first := .name selfName }]
  | .super _ _ => return [{ op := .loadVar, first := .name superName }]
  | .unary op _ _ operand => do
      let code ← layExpr .invoke position operand
      return code ++ [{ op := unaryOpcode op }]
  | .binary left op _ _ right => do
      let first ← layExpr .invoke position left
      let second ← layExpr .invoke (position + first.length) right
      return first ++ second ++ [{ op := .binary, first := .op op }]
  | .logic left op _ _ right => do
      let (leave, short, full) := logicParts op
      let first ← layExpr .invoke position left
      let second ← layExpr .invoke (position + first.length + 1) right
      let shortAt := position + first.length + second.length + 4
      return first ++ [jumpTo leave shortAt] ++ second ++ [jumpTo leave shortAt] ++
        [pushValue full, jumpTo .jump (shortAt + 1), pushValue short]
  | .chain _ _ [] _ => return [pushValue .null]
  | .chain _ _ (first :: rest) ops =>
      if rest.length = ops.length then do
        let head ← layExpr .invoke position first
        let failure := position + head.length + linksSize rest + 1
        let links ← layLinks failure (position + head.length) (ops.map (·.1)) rest
        return head ++ links ++
          [jumpTo .jump (failure + 2), { op := .pop }, pushValue (.truth false)]
      else reject .chainMismatch first.line
  | .group _ _ inner => layExpr mode position inner
  | .list _ _ items => do
      let code ← layExprs position items
      return code ++ [withCount .buildList items.length]
  | .map _ _ entries => do
      let code ← layEntries position entries
      return code ++ [withCount .buildMap entries.length]
  | .index _ _ base index => do
      let first ← layExpr .invoke position base
      let second ← layExpr .invoke (position + first.length) index
      return first ++ second ++ [indexInstr mode]
  | .member base field _ =>
      if base.isSuper then return [pushValue (.text field.name), superInstr mode]
      else do
        let code ← layExpr .invoke position base
        return code ++ [pushValue (.text field.name), indexInstr mode]
  | .slice _ _ base first last => do
      let target ← layExpr .invoke position base
      let low ← layBound (position + target.length) first
      let high ← layBound (position + target.length + low.length) last
      return target ++ low ++ high ++ [{ op := .slice }]
  | .call span _ (.name ident) args =>
      if mode = .read then reject .referenceToCall span.line
      else if ident.isScope then do
        let code ← layExprs (position + 1) args
        return [nameInstr .invoke ident.name] ++ code ++ [withCount .callValue args.length]
      else do
        let code ← layExprs position args
        return code ++
          [{ op := .callVar, first := .name ident.name, second := .int args.length }]
  | .call span _ (.member base field _) args =>
      if mode = .read then reject .referenceToCall span.line
      else if base.isSuper then do
        let code ← layExprs (position + 1) args
        return [pushValue (.text field.name)] ++ code ++ [withCount .callSuper args.length]
      else do
        let target ← layExpr .invoke position base
        let code ← layExprs (position + target.length + 1) args
        return target ++ [pushValue (.text field.name)] ++ code ++
          [withCount .callIndex args.length]
  | .call span _ (.index _ _ base index) args =>
      if mode = .read then reject .referenceToCall span.line
      else do
        let target ← layExpr .invoke position base
        let key ← layExpr .invoke (position + target.length) index
        let code ← layExprs (position + target.length + key.length) args
        return target ++ key ++ code ++ [withCount .callIndex args.length]
  | .call span _ callee args =>
      if mode = .read then reject .referenceToCall span.line
      else do
        let target ← layExpr .invoke position callee
        let code ← layExprs (position + target.length) args
        return target ++ code ++ [withCount .callValue args.length]
  | .reference _ _ inner => layExpr .read position inner
  | .function _ _ params body => do
      let params ← compileParams params
      let outer ← get
      set { outer with nextLoop := 0 }
      let steps ← layStmts 0 none body
      let code ← assemble sourceName .function body steps
      let inner ← get
      set { inner with nextLoop := outer.nextLoop }
      let ref ← takeFunction { name := none, params, body := .script code }
      return [{ op := .pushFunction, first := .func ref }]

/-- The operands of a chain after the first, each with its comparison. -/
def layLinks (failure position : Nat) : List BinaryOp → List Expr → Lay (List Instr)
  | op :: ops, item :: rest => do
      let code ← layExpr .invoke position item
      let link := code ++ linkInstrs op rest.isEmpty failure
      let links ← layLinks failure (position + link.length) ops rest
      return link ++ links
  | _, _ => return []

def layExprs (position : Nat) : List Expr → Lay (List Instr)
  | [] => return []
  | item :: rest => do
      let code ← layExpr .invoke position item
      let more ← layExprs (position + code.length) rest
      return code ++ more

def layEntries (position : Nat) : List (Expr × Expr) → Lay (List Instr)
  | [] => return []
  | (key, value) :: rest => do
      let first ← layExpr .invoke position key
      let second ← layExpr .invoke (position + first.length) value
      let more ← layEntries (position + first.length + second.length) rest
      return first ++ second ++ more

/-- A missing bound or value is null. -/
def layBound (position : Nat) : Option Expr → Lay (List Instr)
  | none => return [pushValue .null]
  | some bound => layExpr .invoke position bound

/-- The steps of a statement inside its source bracket. -/
def layStmt (position : Nat) (loop : Option LoopPlace) : Stmt → Lay (List Builder.Step)
  | .expr _ value => do
      let code ← layExpr .invoke position value
      return emitSteps (code ++ [{ op := .pop }])
  | .assign _ (.name ident) none value => do
      let code ← layExpr .invoke position value
      return emitSteps (code ++ [{ op := .assignVar, first := .name ident.name }])
  | .assign _ (.name ident) (some op) value => do
      let code ← layExpr .invoke (position + 1) value
      return emitSteps ([nameInstr .invoke ident.name] ++ code ++
        [{ op := .binary, first := .op op }, { op := .assignVar, first := .name ident.name }])
  | .assign _ (.member base field _) op value => do
      let target ← layExpr .invoke position base
      let before := target ++ [pushValue (.text field.name)] ++ beforeStore op
      let code ← layExpr .invoke (position + before.length) value
      return emitSteps (before ++ code ++ combine op ++ [{ op := .assignIndex }])
  | .assign _ (.index _ _ base index) op value => do
      let target ← layExpr .invoke position base
      let key ← layExpr .invoke (position + target.length) index
      let before := target ++ key ++ beforeStore op
      let code ← layExpr .invoke (position + before.length) value
      return emitSteps (before ++ code ++ combine op ++ [{ op := .assignIndex }])
  | .assign _ target _ _ => reject .invalidTarget target.line
  | .ifElse _ _ condition thenBranch none => do
      let test ← layExpr .invoke position condition
      let thenAt := position + test.length + 1
      let branch ← layStmts thenAt loop thenBranch
      return emitSteps (test ++ [jumpTo .jumpIfFalse (thenAt + stmtsSize thenBranch)]) ++ branch
  | .ifElse _ _ condition thenBranch (some elseBranch) => do
      let test ← layExpr .invoke position condition
      let thenAt := position + test.length + 1
      let elseAt := thenAt + stmtsSize thenBranch + 1
      let branch ← layStmts thenAt loop thenBranch
      let other ← layStmts elseAt loop elseBranch
      return emitSteps (test ++ [jumpTo .jumpIfFalse elseAt]) ++ branch ++
        [.emitUnmapped (jumpTo .jump (elseAt + stmtsSize elseBranch))] ++ other
  | .whileLoop _ _ condition body => do
      let test ← layExpr .invoke position condition
      let bodyAt := position + test.length + 1
      let stop := bodyAt + stmtsSize body + 1
      let steps ← layStmts bodyAt (some (.whileLoop position stop)) body
      return emitSteps (test ++ [jumpTo .jumpIfFalse stop]) ++ steps ++
        emitSteps [jumpTo .jump position]
  | .forLoop _ _ var iter body => do
      let id ← takeLoop
      let source ← layExpr .invoke position iter
      let next := position + source.length + 1
      let stop := next + 1 + stmtsSize body + 1
      let steps ← layStmts (next + 1) (some (.forLoop id)) body
      return emitSteps (source ++
        [{ op := .createForLoop, first := .int id, second := .name var.name },
          { op := .iterateForLoop, first := .int id, second := .addr stop }]) ++ steps ++
        emitSteps [jumpTo .jump next]
  | .breakLoop _ span =>
      match loop with
      | some (.whileLoop _ stop) => return emitSteps [jumpTo .jump stop]
      | some (.forLoop id) => return emitSteps [withCount .breakForLoop id]
      | none => reject .breakOutsideLoop span.line
  | .continueLoop _ span =>
      match loop with
      | some (.whileLoop start _) => return emitSteps [jumpTo .jump start]
      | some (.forLoop id) => return emitSteps [withCount .continueForLoop id]
      | none => reject .continueOutsideLoop span.line
  | .returnValue _ _ value => do
      let code ← layBound position value
      return emitSteps (code ++ [{ op := .return }])

/-- The statements one after the other, each in a bracket with its line. -/
def layStmts (position : Nat) (loop : Option LoopPlace) :
    List Stmt → Lay (List Builder.Step)
  | [] => return []
  | stmt :: rest => do
      let steps ← layStmt position loop stmt
      let more ← layStmts (position + stmtSize stmt) loop rest
      return [.openSource stmt.line] ++ steps ++ [.closeSource] ++ more

end

/-- The code of a body, with the definitions of the functions in it. -/
def layBody (kind : BodyKind) (stmts : List Stmt) (functions : Array Definition) :
    Except CompileError (Code × Array Definition) := do
  let body : Lay Code := do
    let steps ← layStmts sourceName 0 none stmts
    assemble sourceName kind stmts steps
  let (code, state) ← body.run ⟨functions, 0⟩
  return (code, state.functions)

end

end Compiler

end MiniScript
