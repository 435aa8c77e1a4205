import MiniScript.Json.Basic
import MiniScript.Number.Text
import MiniScript.Program.Tree

/-!
# Program trees as JSON documents

A node is an object with one field, named for the kind of node. The value is an
object with the parts of the node, or an array where the parts have no names.
How a number literal is written is left to the caller.
-/

namespace MiniScript

def Span.toJson (span : Span) : Json :=
  .object [("start", .ofNat span.start), ("end", .ofNat span.stop), ("line", .ofNat span.line)]

def Ident.toJson (ident : Ident) : Json :=
  .object [("name", .string ident.name), ("span", ident.span.toJson), ("id", .ofNat ident.id)]

def BinaryOp.tag : BinaryOp → String
  | .add => "Add"
  | .sub => "Sub"
  | .mul => "Mul"
  | .div => "Div"
  | .mod => "Mod"
  | .pow => "Pow"
  | .eq => "Eq"
  | .ne => "Ne"
  | .lt => "Lt"
  | .le => "Le"
  | .gt => "Gt"
  | .ge => "Ge"
  | .isa => "Isa"

def LogicOp.tag : LogicOp → String
  | .and => "And"
  | .or => "Or"

def UnaryOp.tag : UnaryOp → String
  | .neg => "Neg"
  | .not => "Not"
  | .new => "New"

namespace Program

/-- A node: its kind and its parts. -/
def node (tag : String) (content : Json) : Json :=
  .object [(tag, content)]

section

variable (number : Float → Json)

mutual

def exprToJson : Expr → Json
  | .number value span id => node "Number" (.array [number value, span.toJson, .ofNat id])
  | .text value span id => node "String" (.array [.string value, span.toJson, .ofNat id])
  | .bool value span id => node "Bool" (.array [.bool value, span.toJson, .ofNat id])
  | .null span id => node "Null" (.array [span.toJson, .ofNat id])
  | .name ident => node "Ident" ident.toJson
  | .self span id => node "SelfRef" (.array [span.toJson, .ofNat id])
  | .super span id => node "SuperRef" (.array [span.toJson, .ofNat id])
  | .unary op opSpan id operand =>
      node "Unary" (.object [("op", .string op.tag), ("op_span", opSpan.toJson), ("id", .ofNat id),
        ("expr", exprToJson operand)])
  | .binary left op opSpan id right =>
      node "Binary" (.object [("left", exprToJson left), ("op", .string op.tag),
        ("op_span", opSpan.toJson), ("id", .ofNat id), ("right", exprToJson right)])
  | .logic left op opSpan id right =>
      node "Logic" (.object [("left", exprToJson left), ("op", .string op.tag),
        ("op_span", opSpan.toJson), ("id", .ofNat id), ("right", exprToJson right)])
  | .chain span id items ops =>
      node "ChainedComparison" (.object [("span", span.toJson), ("id", .ofNat id),
        ("items", .array (exprsToJson items)),
        ("ops", .array (ops.map fun (op, opSpan) => .array [.string op.tag, opSpan.toJson]))])
  | .group span id inner =>
      node "Group" (.object [("span", span.toJson), ("id", .ofNat id), ("expr", exprToJson inner)])
  | .list span id items =>
      node "List" (.object [("span", span.toJson), ("id", .ofNat id),
        ("items", .array (exprsToJson items))])
  | .map span id entries =>
      node "Map" (.object [("span", span.toJson), ("id", .ofNat id),
        ("entries", .array (entriesToJson entries))])
  | .index indexSpan id base index =>
      node "Index" (.object [("index_span", indexSpan.toJson), ("id", .ofNat id),
        ("base", exprToJson base), ("index", exprToJson index)])
  | .member base field id =>
      node "Member" (.object [("base", exprToJson base), ("name", field.toJson), ("id", .ofNat id)])
  | .slice span id base first last =>
      node "Slice" (.object [("span", span.toJson), ("id", .ofNat id), ("base", exprToJson base),
        ("from", optionToJson first), ("to", optionToJson last)])
  | .call span id callee args =>
      node "Call" (.object [("span", span.toJson), ("id", .ofNat id), ("callee", exprToJson callee),
        ("args", .array (exprsToJson args))])
  | .reference span id inner =>
      node "FunctionRef" (.object [("span", span.toJson), ("id", .ofNat id),
        ("expr", exprToJson inner)])
  | .function span id params body =>
      node "Function" (.object [("span", span.toJson), ("id", .ofNat id),
        ("params", .array (paramsToJson params)), ("body", .array (stmtsToJson body))])

def exprsToJson : List Expr → List Json
  | [] => []
  | item :: rest => exprToJson item :: exprsToJson rest

def entriesToJson : List (Expr × Expr) → List Json
  | [] => []
  | (key, value) :: rest => .array [exprToJson key, exprToJson value] :: entriesToJson rest

def optionToJson : Option Expr → Json
  | none => .null
  | some value => exprToJson value

def paramsToJson : List Param → List Json
  | [] => []
  | .mk id ident default :: rest =>
      .object [("id", .ofNat id), ("name", ident.toJson), ("default", optionToJson default)] ::
        paramsToJson rest

def stmtToJson : Stmt → Json
  | .expr id value => node "Expr" (.object [("id", .ofNat id), ("expr", exprToJson value)])
  | .assign id target op value =>
      node "Assign" (.object [("id", .ofNat id), ("target", exprToJson target),
        ("op", match op with
          | some op => .string op.tag
          | none => .null),
        ("value", exprToJson value)])
  | .ifElse id span condition thenBranch elseBranch =>
      node "If" (.object [("id", .ofNat id), ("if_span", span.toJson),
        ("condition", exprToJson condition), ("then_branch", .array (stmtsToJson thenBranch)),
        ("else_branch", branchToJson elseBranch)])
  | .whileLoop id span condition body =>
      node "While" (.object [("id", .ofNat id), ("while_span", span.toJson),
        ("condition", exprToJson condition), ("body", .array (stmtsToJson body))])
  | .forLoop id span var iter body =>
      node "For" (.object [("id", .ofNat id), ("for_span", span.toJson), ("var", var.toJson),
        ("iter", exprToJson iter), ("body", .array (stmtsToJson body))])
  | .breakLoop id span => node "Break" (.object [("id", .ofNat id), ("break_span", span.toJson)])
  | .continueLoop id span =>
      node "Continue" (.object [("id", .ofNat id), ("continue_span", span.toJson)])
  | .returnValue id span value =>
      node "Return" (.object [("id", .ofNat id), ("return_span", span.toJson),
        ("expr", optionToJson value)])

def stmtsToJson : List Stmt → List Json
  | [] => []
  | stmt :: rest => stmtToJson stmt :: stmtsToJson rest

def branchToJson : Option (List Stmt) → Json
  | none => .null
  | some stmts => .array (stmtsToJson stmts)

end

end

/-- A program as a document. -/
def toJson (number : Float → Json) (stmts : List Stmt) : Json :=
  .array (stmtsToJson number stmts)

/-- Number literals as plain JSON numbers; an infinite one has none. -/
def plainNumber (value : Float) : Json :=
  match Number.literal value with
  | some lexeme => .number lexeme
  | none => .null

end Program

end MiniScript
