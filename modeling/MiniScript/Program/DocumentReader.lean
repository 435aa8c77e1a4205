import MiniScript.Json.Number
import MiniScript.Program.Document

/-!
# Program trees from JSON documents

The inverse of the writer. The named parts of a node may come in any order;
parts that are not known are ignored, and an optional part may be missing.
Spans, names and parameters may also be arrays of their parts in a fixed order,
and an operator may be an object whose only field is its tag, holding null.
-/

namespace MiniScript

def BinaryOp.ofTag? (text : String) : Option BinaryOp :=
  BinaryOp.all.find? fun op => op.tag == text

def LogicOp.ofTag? : String → Option LogicOp
  | "And" => some .and
  | "Or" => some .or
  | _ => none

def UnaryOp.ofTag? : String → Option UnaryOp
  | "Neg" => some .neg
  | "Not" => some .not
  | "New" => some .new
  | _ => none

theorem BinaryOp.ofTag?_tag (op : BinaryOp) : BinaryOp.ofTag? op.tag = some op := by
  cases op <;> decide

namespace Program

/-- The parts of a node called `names`; a part that is missing is null. -/
def parts (names : List String) : Json → Option (List Json)
  | .object fields =>
      some (names.map fun name => ((Json.object fields).field? name).getD .null)
  | _ => none

/-- The parts called `names`, which an array gives all in order. -/
def orderedParts (names : List String) : Json → Option (List Json)
  | .array items => if items.length = names.length then some items else none
  | document => parts names document

/-- A natural number below `bound`. -/
def natBelow (bound : Nat) (document : Json) : Option Nat :=
  document.toNat?.bind fun value => if value < bound then some value else none

def idOf : Json → Option NodeId :=
  natBelow UInt32.size

def spanOf (document : Json) : Option Span := do
  match ← orderedParts ["start", "end", "line"] document with
  | [start, stop, line] =>
      return ⟨← natBelow UInt64.size start, ← natBelow UInt64.size stop,
        ← natBelow UInt32.size line⟩
  | _ => none

def identOf (document : Json) : Option Ident := do
  match ← orderedParts ["name", "span", "id"] document with
  | [name, span, id] => return ⟨← name.toText?, ← spanOf span, ← idOf id⟩
  | _ => none

def boolOf : Json → Option Bool
  | .bool value => some value
  | _ => none

/-- The tag of an operator, as a text or as the only field of an object. -/
def tagOf : Json → Option String
  | .string tag => some tag
  | .object [(tag, .null)] => some tag
  | _ => none

def binaryOpOf (document : Json) : Option BinaryOp :=
  (tagOf document).bind BinaryOp.ofTag?

/-- The kind of a node and its content. -/
def nodeOf : Json → Option (String × Json)
  | .object [(tag, content)] => some (tag, content)
  | _ => none

def linkOf : Json → Option (BinaryOp × Span)
  | .array [op, span] => do return (← binaryOpOf op, ← spanOf span)
  | _ => none

mutual

def exprOf : Nat → Json → Option Expr
  | 0, _ => none
  | fuel + 1, document => do
      match ← nodeOf document with
      | ("Number", .array [value, span, id]) =>
          return .number (← value.toFloat?) (← spanOf span) (← idOf id)
      | ("String", .array [value, span, id]) =>
          return .text (← value.toText?) (← spanOf span) (← idOf id)
      | ("Bool", .array [value, span, id]) =>
          return .bool (← boolOf value) (← spanOf span) (← idOf id)
      | ("Null", .array [span, id]) => return .null (← spanOf span) (← idOf id)
      | ("Ident", ident) => return .name (← identOf ident)
      | ("SelfRef", .array [span, id]) => return .self (← spanOf span) (← idOf id)
      | ("SuperRef", .array [span, id]) => return .super (← spanOf span) (← idOf id)
      | ("Unary", content) =>
          match ← parts ["op", "op_span", "id", "expr"] content with
          | [op, opSpan, id, operand] =>
              return .unary (← (tagOf op).bind UnaryOp.ofTag?) (← spanOf opSpan) (← idOf id)
                (← exprOf fuel operand)
          | _ => none
      | ("Binary", content) =>
          match ← parts ["left", "op", "op_span", "id", "right"] content with
          | [left, op, opSpan, id, right] =>
              return .binary (← exprOf fuel left) (← binaryOpOf op) (← spanOf opSpan) (← idOf id)
                (← exprOf fuel right)
          | _ => none
      | ("Logic", content) =>
          match ← parts ["left", "op", "op_span", "id", "right"] content with
          | [left, op, opSpan, id, right] =>
              return .logic (← exprOf fuel left) (← (tagOf op).bind LogicOp.ofTag?)
                (← spanOf opSpan) (← idOf id) (← exprOf fuel right)
          | _ => none
      | ("ChainedComparison", content) =>
          match ← parts ["span", "id", "items", "ops"] content with
          | [span, id, items, ops] =>
              return .chain (← spanOf span) (← idOf id) (← exprsOf fuel (← items.toList?))
                (← (← ops.toList?).mapM linkOf)
          | _ => none
      | ("Group", content) =>
          match ← parts ["span", "id", "expr"] content with
          | [span, id, inner] =>
              return .group (← spanOf span) (← idOf id) (← exprOf fuel inner)
          | _ => none
      | ("List", content) =>
          match ← parts ["span", "id", "items"] content with
          | [span, id, items] =>
              return .list (← spanOf span) (← idOf id) (← exprsOf fuel (← items.toList?))
          | _ => none
      | ("Map", content) =>
          match ← parts ["span", "id", "entries"] content with
          | [span, id, entries] =>
              return .map (← spanOf span) (← idOf id) (← entriesOf fuel (← entries.toList?))
          | _ => none
      | ("Index", content) =>
          match ← parts ["index_span", "id", "base", "index"] content with
          | [indexSpan, id, base, index] =>
              return .index (← spanOf indexSpan) (← idOf id) (← exprOf fuel base)
                (← exprOf fuel index)
          | _ => none
      | ("Member", content) =>
          match ← parts ["base", "name", "id"] content with
          | [base, name, id] =>
              return .member (← exprOf fuel base) (← identOf name) (← idOf id)
          | _ => none
      | ("Slice", content) =>
          match ← parts ["span", "id", "base", "from", "to"] content with
          | [span, id, base, first, last] =>
              return .slice (← spanOf span) (← idOf id) (← exprOf fuel base)
                (← optionOf fuel first) (← optionOf fuel last)
          | _ => none
      | ("Call", content) =>
          match ← parts ["span", "id", "callee", "args"] content with
          | [span, id, callee, args] =>
              return .call (← spanOf span) (← idOf id) (← exprOf fuel callee)
                (← exprsOf fuel (← args.toList?))
          | _ => none
      | ("FunctionRef", content) =>
          match ← parts ["span", "id", "expr"] content with
          | [span, id, inner] =>
              return .reference (← spanOf span) (← idOf id) (← exprOf fuel inner)
          | _ => none
      | ("Function", content) =>
          match ← parts ["span", "id", "params", "body"] content with
          | [span, id, params, body] =>
              return .function (← spanOf span) (← idOf id) (← paramsOf fuel (← params.toList?))
                (← stmtsOf fuel (← body.toList?))
          | _ => none
      | _ => none

def optionOf : Nat → Json → Option (Option Expr)
  | 0, _ => none
  | _ + 1, .null => some none
  | fuel + 1, document => (exprOf fuel document).map some

def exprsOf : Nat → List Json → Option (List Expr)
  | 0, _ => none
  | _ + 1, [] => some []
  | fuel + 1, item :: rest => do return (← exprOf fuel item) :: (← exprsOf fuel rest)

def entriesOf : Nat → List Json → Option (List (Expr × Expr))
  | 0, _ => none
  | _ + 1, [] => some []
  | fuel + 1, .array [key, value] :: rest => do
      return (← exprOf fuel key, ← exprOf fuel value) :: (← entriesOf fuel rest)
  | _ + 1, _ :: _ => none

def paramsOf : Nat → List Json → Option (List Param)
  | 0, _ => none
  | _ + 1, [] => some []
  | fuel + 1, param :: rest => do
      match ← orderedParts ["id", "name", "default"] param with
      | [id, name, default] =>
          return .mk (← idOf id) (← identOf name) (← optionOf fuel default) ::
            (← paramsOf fuel rest)
      | _ => none

def stmtOf : Nat → Json → Option Stmt
  | 0, _ => none
  | fuel + 1, document => do
      match ← nodeOf document with
      | ("Expr", content) =>
          match ← parts ["id", "expr"] content with
          | [id, value] => return .expr (← idOf id) (← exprOf fuel value)
          | _ => none
      | ("Assign", content) =>
          match ← parts ["id", "target", "op", "value"] content with
          | [id, target, op, value] =>
              let op ← match op with
                | .null => some none
                | op => (binaryOpOf op).map some
              return .assign (← idOf id) (← exprOf fuel target) op (← exprOf fuel value)
          | _ => none
      | ("If", content) =>
          match ← parts ["id", "if_span", "condition", "then_branch", "else_branch"] content with
          | [id, span, condition, thenBranch, elseBranch] =>
              return .ifElse (← idOf id) (← spanOf span) (← exprOf fuel condition)
                (← stmtsOf fuel (← thenBranch.toList?)) (← branchOf fuel elseBranch)
          | _ => none
      | ("While", content) =>
          match ← parts ["id", "while_span", "condition", "body"] content with
          | [id, span, condition, body] =>
              return .whileLoop (← idOf id) (← spanOf span) (← exprOf fuel condition)
                (← stmtsOf fuel (← body.toList?))
          | _ => none
      | ("For", content) =>
          match ← parts ["id", "for_span", "var", "iter", "body"] content with
          | [id, span, var, iter, body] =>
              return .forLoop (← idOf id) (← spanOf span) (← identOf var) (← exprOf fuel iter)
                (← stmtsOf fuel (← body.toList?))
          | _ => none
      | ("Break", content) =>
          match ← parts ["id", "break_span"] content with
          | [id, span] => return .breakLoop (← idOf id) (← spanOf span)
          | _ => none
      | ("Continue", content) =>
          match ← parts ["id", "continue_span"] content with
          | [id, span] => return .continueLoop (← idOf id) (← spanOf span)
          | _ => none
      | ("Return", content) =>
          match ← parts ["id", "return_span", "expr"] content with
          | [id, span, value] =>
              return .returnValue (← idOf id) (← spanOf span) (← optionOf fuel value)
          | _ => none
      | _ => none

def stmtsOf : Nat → List Json → Option (List Stmt)
  | 0, _ => none
  | _ + 1, [] => some []
  | fuel + 1, stmt :: rest => do return (← stmtOf fuel stmt) :: (← stmtsOf fuel rest)

def branchOf : Nat → Json → Option (Option (List Stmt))
  | 0, _ => none
  | _ + 1, .null => some none
  | fuel + 1, document => do return some (← stmtsOf fuel (← document.toList?))

end

mutual

/-- The number of documents inside a document, itself included. -/
def weight : Json → Nat
  | .array items => weightItems items + 1
  | .object fields => weightFields fields + 1
  | _ => 1

def weightItems : List Json → Nat
  | [] => 1
  | item :: rest => weight item + weightItems rest + 1

def weightFields : List (String × Json) → Nat
  | [] => 1
  | (_, value) :: rest => weight value + weightFields rest + 1

end

/-- The program that a document describes. -/
def ofJson? (document : Json) : Option (List Stmt) := do
  let stmts ← document.toList?
  stmtsOf (2 * weight document + 2) stmts

end Program

end MiniScript
