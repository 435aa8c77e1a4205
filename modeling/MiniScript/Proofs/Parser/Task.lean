import MiniScript.Program.Parser

/-!
# The procedures of the parser as data

The procedures of the parser call each other, so a fact about one of them is a fact
about all. A task is a procedure with its arguments; what holds of every task is
proved by one induction on the steps that it may nest.
-/

namespace MiniScript.Parser

/-- What a procedure reads. -/
inductive Category where
  | expr | exprs | bound | entries | params | stmt | stmts
deriving DecidableEq, Repr

/-- What a procedure gives when it has read that. -/
@[reducible]
def Category.Tree : Category → Type
  | .expr => Expr
  | .exprs => List Expr
  | .bound => Option Expr
  | .entries => List (Expr × Expr)
  | .params => List Param
  | .stmt => Stmt
  | .stmts => List Stmt

/-- A procedure with its arguments. -/
inductive Task : Category → Type where
  | expr : Task .expr
  | binaryRest (left : Expr) (level : Nat) : Task .expr
  | rightOperand (level : Nat) : Task .expr
  | chain (first : Expr) (rest : List Expr) (ops : List (BinaryOp × Span)) (op : BinaryOp)
      (opSpan : Span) : Task .expr
  | unary : Task .expr
  | power : Task .expr
  | powerRest (base : Expr) : Task .expr
  | postfixed : Task .expr
  | suffixes (base : Expr) : Task .expr
  | items (close : Symbol) (gathered : List Expr) : Task .exprs
  | optional (stop : Symbol) : Task .bound
  | indexOrSlice (base : Expr) : Task .expr
  | primary : Task .expr
  | entries (gathered : List (Expr × Expr)) : Task .entries
  | function : Task .expr
  | paramList : Task .params
  | params (gathered : List Param) : Task .params
  | default (param : String) : Task .bound
  | block (gathered : List Stmt) : Task .stmts
  | stmt : Task .stmt
  | conditional : Task .stmt
  | ifBlock (start : Span) (condition : Expr) : Task .stmt
  | simple : Task .stmt
  | fromTarget : Task .stmt
  | arguments (gathered : List Expr) : Task .exprs
  | statements (gathered : List Stmt) : Task .stmts

namespace Task

/-- Carries the task out, with that many steps to nest. -/
def run (fuel : Nat) : {category : Category} → Task category → Parser category.Tree
  | _, .expr => parseExpr fuel
  | _, .binaryRest left level => parseBinaryRest fuel left level
  | _, .rightOperand level => parseRightOperand fuel level
  | _, .chain first rest ops op opSpan => parseChain fuel first rest ops op opSpan
  | _, .unary => parseUnary fuel
  | _, .power => parsePower fuel
  | _, .powerRest base => parsePowerRest fuel base
  | _, .postfixed => parsePostfix fuel
  | _, .suffixes base => parseSuffixes fuel base
  | _, .items close gathered => parseItems fuel close gathered
  | _, .optional stop => parseUnless fuel stop
  | _, .indexOrSlice base => parseIndexOrSlice fuel base
  | _, .primary => parsePrimary fuel
  | _, .entries gathered => parseEntries fuel gathered
  | _, .function => parseFunction fuel
  | _, .paramList => parseParamList fuel
  | _, .params gathered => parseParams fuel gathered
  | _, .default param => parseDefault fuel param
  | _, .block gathered => parseBlock fuel gathered
  | _, .stmt => parseStmt fuel
  | _, .conditional => parseIf fuel
  | _, .ifBlock start condition => parseIfBlock fuel start condition
  | _, .simple => parseSimple fuel
  | _, .fromTarget => parseFromTarget fuel
  | _, .arguments gathered => parseArguments fuel gathered
  | _, .statements gathered => parseStatements fuel gathered

theorem run_zero {category : Category} (task : Task category) : task.run 0 = outOfFuel := by
  cases task <;> rfl

end Task

end MiniScript.Parser
