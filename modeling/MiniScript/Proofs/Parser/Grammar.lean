import MiniScript.Proofs.Compiler.Faults
import MiniScript.Proofs.Parser.Writing

/-!
# How a program is laid out

A node of a tree is written by a row of pieces: marks of its own and the nodes that are
its parts, in order. Tokens lay out a node if they can be divided among the pieces of
one of its forms. Line ends and semicolons only separate, so the tokens are taken
without them. Wherever a node is laid out, it is asked to be in the right place: it
starts where its first token starts, on the line of that token, and covers all that is
within it.
-/

namespace MiniScript

/-- The inner span lies in the outer one. -/
structure Span.Covers (outer inner : Span) : Prop where
  start : outer.start ≤ inner.start
  stop : inner.stop ≤ outer.stop

theorem Span.Covers.refl (span : Span) : span.Covers span :=
  ⟨Nat.le_refl _, Nat.le_refl _⟩

namespace Parser

open Compiler

/-- What a node is written with. -/
inductive Piece where
  | mark (mark : Mark)
  | expr (expr : Expr)
  | stmt (stmt : Stmt)

/-- Rows of pieces with commas between them; one more may follow the last. -/
inductive Series : List (List Piece) → List Piece → Prop where
  | none : Series [] []
  | last (row : List Piece) : Series [row] row
  | cons (row : List Piece) {rows : List (List Piece)} {pieces : List Piece}
      (others : Series rows pieces) :
      Series (row :: rows) (row ++ [.mark (.symbol .comma)] ++ pieces)

def entryPieces (entry : Expr × Expr) : List Piece :=
  [.expr entry.1, .mark (.symbol .colon), .expr entry.2]

def boundPieces (bound : Option Expr) : List Piece :=
  bound.toList.map .expr

def paramPieces : Param → List Piece
  | .mk _ ident none => [.mark (.name ident.name)]
  | .mk _ ident (some default) =>
      [.mark (.name ident.name), .mark (.symbol .assign), .expr default]

/-- An operator of a chain and the operand after it. -/
def linkPieces (link : (BinaryOp × Span) × Expr) : List Piece :=
  [.mark link.1.1.mark, .expr link.2]

/-- An argument after the first of a call without parentheses. -/
def argumentPieces (arg : Expr) : List Piece :=
  [.mark (.symbol .comma), .expr arg]

/-- The parentheses of a function literal may be left out. -/
inductive ParamList : List Param → List Piece → Prop where
  | none : ParamList [] []
  | some {params : List Param} {pieces : List Piece}
      (series : Series (params.map paramPieces) pieces) :
      ParamList params
        ([Piece.mark (.symbol .leftParen)] ++ pieces ++ [Piece.mark (.symbol .rightParen)])

def ifHead (condition : Expr) : List Piece :=
  [.mark (.keyword .if), .expr condition, .mark (.keyword .then)]

/-- The last words of a block. -/
def blockEnd (word : Keyword) : List Piece :=
  [.mark (.keyword .end), .mark (.keyword word)]

/-- The ways in which a node is written. -/
inductive Form : Piece → List Piece → Prop where
  | number {value : Float} {span : Span} {id : NodeId} :
      Form (.expr (.number value span id)) [.mark (.number value)]
  /-- A minus sign in front of a number belongs to the number. -/
  | negated {value : Float} {span place : Span} {id number : NodeId} :
      Form (.expr (.number (-value) span id))
        [.mark (.symbol .minus), .expr (.number value place number)]
  | text {value : String} {span : Span} {id : NodeId} :
      Form (.expr (.text value span id)) [.mark (.text value)]
  | true {span : Span} {id : NodeId} :
      Form (.expr (.bool true span id)) [.mark (.keyword .true)]
  | false {span : Span} {id : NodeId} :
      Form (.expr (.bool false span id)) [.mark (.keyword .false)]
  | null {span : Span} {id : NodeId} : Form (.expr (.null span id)) [.mark (.keyword .null)]
  | name {ident : Ident} : Form (.expr (.name ident)) [.mark (.name ident.name)]
  | self {span : Span} {id : NodeId} : Form (.expr (.self span id)) [.mark (.keyword .self)]
  | super {span : Span} {id : NodeId} : Form (.expr (.super span id)) [.mark (.keyword .super)]
  | unary {op : UnaryOp} {opSpan : Span} {id : NodeId} {operand : Expr} :
      Form (.expr (.unary op opSpan id operand)) [.mark op.mark, .expr operand]
  | binary {left right : Expr} {op : BinaryOp} {opSpan : Span} {id : NodeId} :
      Form (.expr (.binary left op opSpan id right)) [.expr left, .mark op.mark, .expr right]
  | logic {left right : Expr} {op : LogicOp} {opSpan : Span} {id : NodeId} :
      Form (.expr (.logic left op opSpan id right)) [.expr left, .mark op.mark, .expr right]
  | chain {span : Span} {id : NodeId} {first : Expr} {links : List ((BinaryOp × Span) × Expr)} :
      Form (.expr (.chain span id (first :: links.map (·.2)) (links.map (·.1))))
        (.expr first :: links.flatMap linkPieces)
  | group {span : Span} {id : NodeId} {inner : Expr} :
      Form (.expr (.group span id inner))
        [.mark (.symbol .leftParen), .expr inner, .mark (.symbol .rightParen)]
  | list {span : Span} {id : NodeId} {items : List Expr} {pieces : List Piece}
      (series : Series (items.map fun item => [.expr item]) pieces) :
      Form (.expr (.list span id items))
        ([Piece.mark (.symbol .leftBracket)] ++ pieces ++ [Piece.mark (.symbol .rightBracket)])
  | map {span : Span} {id : NodeId} {entries : List (Expr × Expr)} {pieces : List Piece}
      (series : Series (entries.map entryPieces) pieces) :
      Form (.expr (.map span id entries))
        ([Piece.mark (.symbol .leftBrace)] ++ pieces ++ [Piece.mark (.symbol .rightBrace)])
  | index {indexSpan : Span} {id : NodeId} {base index : Expr} :
      Form (.expr (.index indexSpan id base index))
        [.expr base, .mark (.attached .leftBracket), .expr index, .mark (.symbol .rightBracket)]
  | member {base : Expr} {field : Ident} {id : NodeId} :
      Form (.expr (.member base field id))
        [.expr base, .mark (.symbol .dot), .mark (.field field.name)]
  | slice {span : Span} {id : NodeId} {base : Expr} {first last : Option Expr} :
      Form (.expr (.slice span id base first last))
        ([Piece.expr base, .mark (.attached .leftBracket)] ++ boundPieces first ++
          [Piece.mark (.symbol .colon)] ++ boundPieces last ++ [Piece.mark (.symbol .rightBracket)])
  | call {span : Span} {id : NodeId} {callee : Expr} {args : List Expr} {pieces : List Piece}
      (series : Series (args.map fun arg => [.expr arg]) pieces) :
      Form (.expr (.call span id callee args))
        ([Piece.expr callee, .mark (.attached .leftParen)] ++ pieces ++
          [Piece.mark (.symbol .rightParen)])
  /-- A call without parentheses. -/
  | command {span : Span} {id : NodeId} {callee first : Expr} {args : List Expr} :
      Form (.expr (.call span id callee (first :: args)))
        ([Piece.expr callee, .expr first] ++ args.flatMap argumentPieces)
  | reference {span : Span} {id : NodeId} {inner : Expr} :
      Form (.expr (.reference span id inner)) [.mark (.symbol .at), .expr inner]
  | function {span : Span} {id : NodeId} {params : List Param} {header : List Piece}
      {body : List Stmt} (written : ParamList params header) :
      Form (.expr (.function span id params body))
        ([Piece.mark (.keyword .function)] ++ header ++ body.map .stmt ++ blockEnd .function)
  | exprStmt {id : NodeId} {value : Expr} : Form (.stmt (.expr id value)) [.expr value]
  | assign {id : NodeId} {target value : Expr} {op : Option BinaryOp} {mark : Symbol}
      (known : assignmentOf (.symbol mark) = some op) :
      Form (.stmt (.assign id target op value)) [.expr target, .mark (.symbol mark), .expr value]
  /-- An `if` on one line. -/
  | ifLine {id : NodeId} {span : Span} {condition : Expr} {stmt : Stmt} :
      Form (.stmt (.ifElse id span condition [stmt] none)) (ifHead condition ++ [Piece.stmt stmt])
  /-- An `else` on the line of the `if`, or one with another `if` that has the `end if` of both. -/
  | ifElse {id : NodeId} {span : Span} {condition : Expr} {body : List Stmt} {other : Stmt} :
      Form (.stmt (.ifElse id span condition body (some [other])))
        (ifHead condition ++ body.map .stmt ++ [Piece.mark (.keyword .else)] ++ [Piece.stmt other])
  | ifBlock {id : NodeId} {span : Span} {condition : Expr} {body : List Stmt} :
      Form (.stmt (.ifElse id span condition body none))
        (ifHead condition ++ body.map .stmt ++ blockEnd .if)
  | ifElseBlock {id : NodeId} {span : Span} {condition : Expr} {body others : List Stmt} :
      Form (.stmt (.ifElse id span condition body (some others)))
        (ifHead condition ++ body.map .stmt ++ [Piece.mark (.keyword .else)] ++ others.map .stmt ++
          blockEnd .if)
  | whileLoop {id : NodeId} {span : Span} {condition : Expr} {body : List Stmt} :
      Form (.stmt (.whileLoop id span condition body))
        ([Piece.mark (.keyword .while), .expr condition] ++ body.map .stmt ++ blockEnd .while)
  | forLoop {id : NodeId} {span : Span} {var : Ident} {iter : Expr} {body : List Stmt} :
      Form (.stmt (.forLoop id span var iter body))
        ([Piece.mark (.keyword .for), .mark (.name var.name), .mark (.keyword .in), .expr iter] ++
          body.map .stmt ++ blockEnd .for)
  | breakLoop {id : NodeId} {span : Span} :
      Form (.stmt (.breakLoop id span)) [.mark (.keyword .break)]
  | continueLoop {id : NodeId} {span : Span} :
      Form (.stmt (.continueLoop id span)) [.mark (.keyword .continue)]
  | returnValue {id : NodeId} {span : Span} {value : Option Expr} :
      Form (.stmt (.returnValue id span value))
        ([Piece.mark (.keyword .return)] ++ boundPieces value)

/-- The span starts with the first of the tokens, on its line, and stops with one of them. -/
structure Placed (tokens : List Token) (span : Span) : Prop where
  first : ∃ token rest, tokens = token :: rest ∧ span.start = token.span.start ∧
    span.line = token.span.line
  last : ∃ token ∈ tokens, span.stop = token.span.stop

/-- What is asked of a node that the tokens lay out. -/
def Located (tokens : List Token) : Piece → Prop
  | .mark _ => True
  | .expr expr => Placed tokens expr.span ∧
      ∀ inner, (Node.expr expr).Within (.expr inner) → expr.span.Covers inner.span
  | .stmt stmt => ∃ token rest, tokens = token :: rest ∧ stmt.line = token.span.line

mutual

/-- The tokens write the piece, and every node is in its place. -/
inductive Laid : List Token → Piece → Prop where
  | mark {mark : Mark} {token : Token} (fits : mark.Fits token) : Laid [token] (.mark mark)
  | node {tokens : List Token} {piece : Piece} {pieces : List Piece} (form : Form piece pieces)
      (rows : Rows tokens pieces) (located : Located tokens piece) : Laid tokens piece

/-- The tokens write the pieces one after the other. -/
inductive Rows : List Token → List Piece → Prop where
  | nil : Rows [] []
  | cons {row tokens : List Token} {piece : Piece} {pieces : List Piece} (laid : Laid row piece)
      (others : Rows tokens pieces) : Rows (row ++ tokens) (piece :: pieces)

end

/-! ### Every part of a node is laid out -/

/-- The part is one of the pieces, or its statements are. -/
def Among (pieces : List Piece) : Node → Prop
  | .expr expr => .expr expr ∈ pieces
  | .stmt _ stmt => .stmt stmt ∈ pieces
  | .body stmts => ∀ stmt ∈ stmts, .stmt stmt ∈ pieces

theorem Series.mem {rows : List (List Piece)} {pieces row : List Piece} {piece : Piece}
    (series : Series rows pieces) (here : row ∈ rows) (found : piece ∈ row) : piece ∈ pieces := by
  induction series with
  | none => exact absurd here List.not_mem_nil
  | last only => rwa [List.mem_singleton.mp here] at found
  | cons first others ih =>
      rw [List.append_assoc, List.mem_append]
      rcases List.mem_cons.mp here with rfl | later
      · exact Or.inl found
      · exact Or.inr (List.mem_cons_of_mem _ (ih later))

theorem ParamList.mem {params : List Param} {header : List Piece} {default : Expr}
    (written : ParamList params header) (given : default ∈ params.filterMap Param.default?) :
    .expr default ∈ header := by
  obtain ⟨param, member, found⟩ := List.mem_filterMap.mp given
  cases written with
  | none => exact absurd member List.not_mem_nil
  | some series =>
      refine List.mem_append_left _ (List.mem_append_right _ ?_)
      refine series.mem (List.mem_map_of_mem member) ?_
      obtain ⟨_, _, _ | value⟩ := param
      · exact nomatch found
      · obtain rfl : value = default := Option.some.inj found
        simp [paramPieces]

theorem Series.mem_single {exprs : List Expr} {pieces : List Piece} {expr : Expr}
    (series : Series (exprs.map fun expr => [.expr expr]) pieces) (member : expr ∈ exprs) :
    .expr expr ∈ pieces :=
  series.mem (List.mem_map_of_mem member) List.mem_cons_self

/-- The operands of an expression are among the pieces of each of its forms. -/
theorem Form.operand_mem {expr operand : Expr} {pieces : List Piece}
    (form : Form (.expr expr) pieces) (member : operand ∈ Node.operands expr) :
    .expr operand ∈ pieces := by
  cases form with
  | list series => exact List.mem_append_left _ (List.mem_append_right _ (series.mem_single member))
  | map series =>
      obtain ⟨entry, entered, same⟩ := List.mem_flatMap.mp member
      refine List.mem_append_left _ (List.mem_append_right _ ?_)
      refine series.mem (List.mem_map_of_mem entered) ?_
      rcases List.mem_pair.mp same with rfl | rfl <;> simp [entryPieces]
  | call series =>
      rcases List.mem_cons.mp member with rfl | member
      · exact List.mem_cons_self
      · exact List.mem_append_left _ (List.mem_append_right _ (series.mem_single member))
  | chain =>
      rcases List.mem_cons.mp member with rfl | member
      · exact List.mem_cons_self
      · obtain ⟨link, linked, rfl⟩ := List.mem_map.mp member
        exact List.mem_cons_of_mem _ (List.mem_flatMap.mpr ⟨link, linked, by simp [linkPieces]⟩)
  | function written =>
      have inside := written.mem member
      simp [inside]
  | number | negated | text | true | false | null | name | self | super =>
      exact absurd member List.not_mem_nil
  | _ => simpa [Node.operands, boundPieces, argumentPieces] using member

/-- So are the statements of a function literal. -/
theorem Form.stmt_mem {expr : Expr} {stmts : List Stmt} {stmt : Stmt} {pieces : List Piece}
    (form : Form (.expr expr) pieces) (found : Node.bodyOf expr = some stmts)
    (member : stmt ∈ stmts) : .stmt stmt ∈ pieces := by
  cases form with
  | function =>
      obtain rfl := Option.some.inj found
      simp [member]
  | _ => exact nomatch found

theorem Form.among_expr {expr : Expr} {pieces : List Piece} (form : Form (.expr expr) pieces) :
    ∀ part ∈ (Node.expr expr).parts, Among pieces part := by
  intro part member
  rcases List.mem_append.mp member with member | member
  · obtain ⟨stmts, found, rfl⟩ := List.mem_map.mp member
    exact fun stmt inside => form.stmt_mem (Option.mem_toList.mp found) inside
  · obtain ⟨operand, inside, rfl⟩ := List.mem_map.mp member
    exact form.operand_mem inside

theorem Form.among_stmt {inLoop : Bool} {stmt : Stmt} {pieces : List Piece}
    (form : Form (.stmt stmt) pieces) :
    ∀ part ∈ (Node.stmt inLoop stmt).parts, Among pieces part := by
  cases form with
  | ifElse => simp +contextual [Node.parts, Among, ifHead, or_imp]
  | ifElseBlock => simp +contextual [Node.parts, Among, ifHead, or_imp, forall_and]
  | returnValue => simp [Node.parts, Among, boundPieces]
  | _ => simp +contextual [Node.parts, Among, ifHead]

/-- Some of the tokens, next to each other, lay out the node, or the statements of the body. -/
def LaidIn (tokens : List Token) : Node → Prop
  | .expr expr => ∃ row, row <:+: tokens ∧ Laid row (.expr expr)
  | .stmt _ stmt => ∃ row, row <:+: tokens ∧ Laid row (.stmt stmt)
  | .body stmts => ∀ stmt ∈ stmts, ∃ row, row <:+: tokens ∧ Laid row (.stmt stmt)

theorem Rows.mem {tokens : List Token} {pieces : List Piece} {piece : Piece}
    (rows : Rows tokens pieces) (member : piece ∈ pieces) :
    ∃ row, row <:+: tokens ∧ Laid row piece := by
  induction pieces generalizing tokens with
  | nil => exact absurd member List.not_mem_nil
  | cons first others ih =>
      cases rows with
      | @cons row rest _ _ laid more =>
          rcases List.mem_cons.mp member with rfl | later
          · exact ⟨row, (List.prefix_append row rest).isInfix, laid⟩
          · obtain ⟨part, within, laid⟩ := ih more later
            exact ⟨part, within.trans (List.suffix_append row rest).isInfix, laid⟩

theorem LaidIn.mono {tokens more : List Token} {node : Node} (laid : LaidIn tokens node)
    (within : tokens <:+: more) : LaidIn more node := by
  have wider {piece : Piece} : (∃ row, row <:+: tokens ∧ Laid row piece) →
      ∃ row, row <:+: more ∧ Laid row piece :=
    fun ⟨row, inside, laid⟩ => ⟨row, inside.trans within, laid⟩
  cases node with
  | expr expr => exact wider laid
  | stmt inLoop stmt => exact wider laid
  | body stmts => exact fun stmt member => wider (laid stmt member)

/-- Parts among the pieces are laid out with them. -/
theorem Rows.laidIn {tokens : List Token} {pieces : List Piece} (rows : Rows tokens pieces)
    {part : Node} (among : Among pieces part) : LaidIn tokens part := by
  cases part with
  | expr expr => exact rows.mem among
  | stmt inLoop stmt => exact rows.mem among
  | body stmts => exact fun stmt member => rows.mem (among stmt member)

/-- The parts of what is laid out are laid out. -/
theorem LaidIn.part {tokens : List Token} {node part : Node} (laid : LaidIn tokens node)
    (member : part ∈ node.parts) : LaidIn tokens part := by
  cases node with
  | expr expr =>
      obtain ⟨row, within, laid⟩ := laid
      cases laid with
      | node form rows _ => exact (rows.laidIn (form.among_expr part member)).mono within
  | stmt inLoop stmt =>
      obtain ⟨row, within, laid⟩ := laid
      cases laid with
      | node form rows _ => exact (rows.laidIn (form.among_stmt part member)).mono within
  | body stmts =>
      obtain ⟨stmt, inside, rfl⟩ := List.mem_map.mp member
      exact laid stmt inside

/-- So is everything within it. -/
theorem LaidIn.within {tokens : List Token} {node inner : Node} (laid : LaidIn tokens node)
    (within : node.Within inner) : LaidIn tokens inner := by
  induction within with
  | itself => exact laid
  | part member _ ih => exact ih (laid.part member)

end Parser

end MiniScript
