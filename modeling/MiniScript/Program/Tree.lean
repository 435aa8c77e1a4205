import MiniScript.Token.Basic

/-!
# Program trees

Expressions and statements as the parser builds them. Every node carries its
place in the source and a number that is unique within one program.
-/

namespace MiniScript

/-- The number of a node, in the order in which nodes were completed. -/
abbrev NodeId := Nat

structure Ident where
  name : String
  span : Span
  id : NodeId
deriving Repr, DecidableEq, Inhabited

inductive BinaryOp where
  | add | sub | mul | div | mod | pow | eq | ne | lt | le | gt | ge | isa
deriving DecidableEq, Repr, Inhabited

namespace BinaryOp

def isComparison : BinaryOp → Bool
  | .eq | .ne | .lt | .le | .gt | .ge | .isa => true
  | .add | .sub | .mul | .div | .mod | .pow => false

def symbol : BinaryOp → String
  | .add => "+"
  | .sub => "-"
  | .mul => "*"
  | .div => "/"
  | .mod => "%"
  | .pow => "^"
  | .eq => "=="
  | .ne => "!="
  | .lt => "<"
  | .le => "<="
  | .gt => ">"
  | .ge => ">="
  | .isa => "isa"

def all : List BinaryOp :=
  [.add, .sub, .mul, .div, .mod, .pow, .eq, .ne, .lt, .le, .gt, .ge, .isa]

def ofSymbol? (text : String) : Option BinaryOp :=
  all.find? fun op => op.symbol == text

theorem ofSymbol?_symbol (op : BinaryOp) : ofSymbol? op.symbol = some op := by
  cases op <;> decide

end BinaryOp

inductive LogicOp where
  | and | or
deriving DecidableEq, Repr, Inhabited

inductive UnaryOp where
  | neg | not | new
deriving DecidableEq, Repr, Inhabited

mutual

inductive Expr where
  | number (value : Float) (span : Span) (id : NodeId)
  | text (value : String) (span : Span) (id : NodeId)
  | bool (value : Bool) (span : Span) (id : NodeId)
  | null (span : Span) (id : NodeId)
  | name (ident : Ident)
  | self (span : Span) (id : NodeId)
  | super (span : Span) (id : NodeId)
  | unary (op : UnaryOp) (opSpan : Span) (id : NodeId) (operand : Expr)
  | binary (left : Expr) (op : BinaryOp) (opSpan : Span) (id : NodeId) (right : Expr)
  | logic (left : Expr) (op : LogicOp) (opSpan : Span) (id : NodeId) (right : Expr)
  | chain (span : Span) (id : NodeId) (items : List Expr) (ops : List (BinaryOp × Span))
  | group (span : Span) (id : NodeId) (inner : Expr)
  | list (span : Span) (id : NodeId) (items : List Expr)
  | map (span : Span) (id : NodeId) (entries : List (Expr × Expr))
  | index (indexSpan : Span) (id : NodeId) (base index : Expr)
  | member (base : Expr) (field : Ident) (id : NodeId)
  | slice (span : Span) (id : NodeId) (base : Expr) (first last : Option Expr)
  | call (span : Span) (id : NodeId) (callee : Expr) (args : List Expr)
  /-- The value of the expression without invoking it. -/
  | reference (span : Span) (id : NodeId) (inner : Expr)
  | function (span : Span) (id : NodeId) (params : List Param) (body : List Stmt)

inductive Param where
  | mk (id : NodeId) (ident : Ident) (default : Option Expr)

inductive Stmt where
  | expr (id : NodeId) (value : Expr)
  /-- `op` is set for compound forms. -/
  | assign (id : NodeId) (target : Expr) (op : Option BinaryOp) (value : Expr)
  | ifElse (id : NodeId) (span : Span) (condition : Expr) (thenBranch : List Stmt)
      (elseBranch : Option (List Stmt))
  | whileLoop (id : NodeId) (span : Span) (condition : Expr) (body : List Stmt)
  | forLoop (id : NodeId) (span : Span) (var : Ident) (iter : Expr) (body : List Stmt)
  | breakLoop (id : NodeId) (span : Span)
  | continueLoop (id : NodeId) (span : Span)
  | returnValue (id : NodeId) (span : Span) (value : Option Expr)

end

instance : Inhabited Expr := ⟨.null default 0⟩
instance : Inhabited Stmt := ⟨.breakLoop 0 default⟩

/-- The place of an expression: stored with the node, or joined from its parts. -/
def Expr.span : Expr → Span
  | .number _ span _ => span
  | .text _ span _ => span
  | .bool _ span _ => span
  | .null span _ => span
  | .name ident => ident.span
  | .self span _ => span
  | .super span _ => span
  | .unary _ opSpan _ operand => opSpan.union operand.span
  | .binary left _ _ _ right => left.span.union right.span
  | .logic left _ _ _ right => left.span.union right.span
  | .chain span _ _ _ => span
  | .group span _ _ => span
  | .list span _ _ => span
  | .map span _ _ => span
  | .index indexSpan _ base _ => base.span.union indexSpan
  | .member base field _ => base.span.union field.span
  | .slice span _ _ _ _ => span
  | .call span _ _ _ => span
  | .reference span _ _ => span
  | .function span _ _ _ => span

def Expr.line (expr : Expr) : Nat :=
  expr.span.line

/-- The line a statement starts on. -/
def Stmt.line : Stmt → Nat
  | .expr _ value => value.line
  | .assign _ target _ _ => target.line
  | .ifElse _ span _ _ _ => span.line
  | .whileLoop _ span _ _ => span.line
  | .forLoop _ span _ _ _ => span.line
  | .breakLoop _ span => span.line
  | .continueLoop _ span => span.line
  | .returnValue _ span _ => span.line

end MiniScript
