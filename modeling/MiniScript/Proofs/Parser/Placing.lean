import MiniScript.Proofs.Parser.Grammar

/-!
# Nodes from their parts

Tokens that lay out the parts of a node lay out the node. Its span is joined from the
spans of some of its pieces. As the tokens are in order, it starts with the first of
them. It covers what is within it because what comes early stops before the piece up
to which the span was joined.
-/

namespace MiniScript

theorem Span.union_assoc (first second third : Span) :
    (first.union second).union third = first.union (second.union third) := by
  simp [Span.union, Nat.min_assoc, Nat.max_assoc]

namespace Parser

open Compiler

/-- Tokens as they come in a text: none begins before the end of an earlier one, or on an earlier
line. -/
structure InOrder (tokens : List Token) : Prop where
  each : ∀ token ∈ tokens, token.span.start ≤ token.span.stop
  apart : tokens.Pairwise fun earlier later =>
    earlier.span.stop ≤ later.span.start ∧ earlier.span.line ≤ later.span.line

namespace InOrder

variable {tokens part front back : List Token} {token : Token}

theorem sublist (inOrder : InOrder tokens) (within : part.Sublist tokens) : InOrder part :=
  ⟨fun token member => inOrder.each token (within.subset member), inOrder.apart.sublist within⟩

theorem left (inOrder : InOrder (front ++ back)) : InOrder front :=
  inOrder.sublist (List.sublist_append_left _ _)

theorem right (inOrder : InOrder (front ++ back)) : InOrder back :=
  inOrder.sublist (List.sublist_append_right _ _)

/-- No token begins before the first one, or on an earlier line. -/
theorem first_le {first : Token} {rest : List Token} (inOrder : InOrder (first :: rest))
    (member : token ∈ first :: rest) :
    first.span.start ≤ token.span.start ∧ first.span.line ≤ token.span.line := by
  rcases List.mem_cons.mp member with rfl | later
  · exact ⟨Nat.le_refl _, Nat.le_refl _⟩
  · obtain ⟨stop, line⟩ := List.rel_of_pairwise_cons inOrder.apart later
    exact ⟨Nat.le_trans (inOrder.each first List.mem_cons_self) stop, line⟩

/-- What is before a token stops before it. -/
theorem stop_le (inOrder : InOrder (front ++ back)) {earlier : Token} (before : earlier ∈ front)
    (behind : token ∈ back) : earlier.span.stop ≤ token.span.start :=
  ((List.pairwise_append.mp inOrder.apart).2.2 earlier before token behind).1

end InOrder

namespace Placed

variable {tokens part : List Token} {span other : Span} {token : Token}

theorem single (token : Token) : Placed [token] token.span :=
  ⟨⟨token, [], rfl, rfl, rfl⟩, token, List.mem_cons_self, rfl⟩

theorem more (placed : Placed tokens span) (others : List Token) :
    Placed (tokens ++ others) span := by
  obtain ⟨⟨first, rest, rfl, start, line⟩, last, member, stop⟩ := placed
  exact ⟨⟨first, rest ++ others, rfl, start, line⟩, last, List.mem_append_left _ member, stop⟩

/-- A span is joined with one that lies among the same tokens. -/
theorem union (inOrder : InOrder tokens) (placed : Placed tokens span) (behind : Placed part other)
    (within : part.Sublist tokens) : Placed tokens (span.union other) := by
  obtain ⟨⟨first, rest, rfl, start, line⟩, last, member, stop⟩ := placed
  obtain ⟨⟨token, _, rfl, otherStart, otherLine⟩, final, memberFinal, otherStop⟩ := behind
  obtain ⟨startLe, lineLe⟩ := inOrder.first_le (within.subset List.mem_cons_self)
  rw [← start, ← otherStart] at startLe
  rw [← line, ← otherLine] at lineLe
  obtain ⟨sameStart, sameLine⟩ := Span.union_of_start_le startLe lineLe
  refine ⟨⟨first, rest, rfl, sameStart.trans start, sameLine.trans line⟩, ?_⟩
  rcases Nat.le_total span.stop other.stop with less | more
  · exact ⟨final, within.subset memberFinal, (Nat.max_eq_right less).trans otherStop⟩
  · exact ⟨last, member, (Nat.max_eq_left more).trans stop⟩

theorem start_le_stop (inOrder : InOrder tokens) (placed : Placed tokens span) :
    span.start ≤ span.stop := by
  obtain ⟨⟨first, rest, rfl, start, -⟩, last, member, stop⟩ := placed
  rw [start, stop]
  exact Nat.le_trans (inOrder.first_le member).1 (inOrder.each last member)

end Placed

/-! ### What is somewhere in a piece -/

/-- The expression is somewhere in the piece. -/
def Holds (inner : Expr) : Piece → Prop
  | .mark _ => False
  | .expr expr => (Node.expr expr).Within (.expr inner)
  | .stmt stmt => ∃ inLoop, (Node.stmt inLoop stmt).Within (.expr inner)

theorem Among.holds {pieces : List Piece} {part : Node} {inner : Expr} (among : Among pieces part)
    (within : part.Within (.expr inner)) : ∃ piece ∈ pieces, Holds inner piece := by
  cases part with
  | expr expr => exact ⟨.expr expr, among, within⟩
  | stmt inLoop stmt => exact ⟨.stmt stmt, among, inLoop, within⟩
  | body stmts =>
      cases within with
      | part member within =>
          obtain ⟨stmt, inside, rfl⟩ := List.mem_map.mp member
          exact ⟨.stmt stmt, among stmt inside, false, within⟩

/-- What is somewhere in an expression is that expression or somewhere in a piece of it. -/
theorem Form.holds {expr inner : Expr} {pieces : List Piece} (form : Form (.expr expr) pieces)
    (within : (Node.expr expr).Within (.expr inner)) :
    inner = expr ∨ ∃ piece ∈ pieces, Holds inner piece := by
  cases within with
  | itself => exact Or.inl rfl
  | part member within => exact Or.inr ((form.among_expr _ member).holds within)

theorem Rows.holds {tokens : List Token} {pieces : List Piece} {piece : Piece} {inner : Expr}
    (rows : Rows tokens pieces) (member : piece ∈ pieces) (holds : Holds inner piece) :
    ∃ row, row <:+: tokens ∧ Laid row (.expr inner) := by
  cases piece with
  | mark mark => exact holds.elim
  | expr expr =>
      have laid : LaidIn tokens (.expr expr) := rows.mem member
      exact laid.within holds
  | stmt stmt =>
      obtain ⟨inLoop, within⟩ := holds
      have laid : LaidIn tokens (.stmt inLoop stmt) := rows.mem member
      exact laid.within within

/-! ### Rows side by side -/

namespace Rows

variable {tokens more : List Token} {pieces others : List Piece} {piece : Piece} {token : Token}

theorem single (laid : Laid tokens piece) : Rows tokens [piece] := by
  have rows := Rows.cons laid .nil
  rwa [List.append_nil] at rows

theorem mark {mark : Mark} (fits : mark.Fits token) : Rows [token] [.mark mark] :=
  single (.mark fits)

theorem append (rows : Rows tokens pieces) (rest : Rows more others) :
    Rows (tokens ++ more) (pieces ++ others) := by
  induction pieces generalizing tokens with
  | nil =>
      cases rows
      exact rest
  | cons first pieces ih =>
      cases rows with
      | cons laid later =>
          rw [List.append_assoc, List.cons_append]
          exact .cons laid (ih later)

theorem split (rows : Rows tokens (pieces ++ others)) :
    ∃ front back, tokens = front ++ back ∧ Rows front pieces ∧ Rows back others := by
  induction pieces generalizing tokens with
  | nil => exact ⟨[], tokens, rfl, .nil, rows⟩
  | cons first pieces ih =>
      cases rows with
      | @cons row _ _ _ laid later =>
          obtain ⟨front, back, rfl, before, behind⟩ := ih later
          exact ⟨row ++ front, back, (List.append_assoc _ _ _).symm, .cons laid before, behind⟩

theorem laid (rows : Rows tokens [piece]) : Laid tokens piece := by
  cases rows with
  | cons laid none =>
      cases none
      rwa [List.append_nil]

end Rows

namespace Laid

variable {tokens before behind : List Token} {front back : List Piece} {expr inner last : Expr}

theorem located {piece : Piece} (laid : Laid tokens piece) : Located tokens piece := by
  cases laid with
  | mark => trivial
  | node _ _ located => exact located

theorem placed (laid : Laid tokens (.expr expr)) : Placed tokens expr.span :=
  laid.located.1

theorem covers (laid : Laid tokens (.expr expr)) (holds : Holds inner (.expr expr)) :
    expr.span.Covers inner.span :=
  laid.located.2 inner holds

/-- The span of an expression covers what is within it if it reaches beyond the start of some token
that is behind the pieces at the front, and covers what is in the other pieces. -/
theorem ofForm (inOrder : InOrder (before ++ behind)) (form : Form (.expr expr) (front ++ back))
    (rows : Rows before front) (rest : Rows behind back)
    (placed : Placed (before ++ behind) expr.span)
    (reach : ∃ token ∈ behind, token.span.start ≤ expr.span.stop)
    (own : ∀ piece ∈ back, ∀ inner, Holds inner piece → inner.span.stop ≤ expr.span.stop) :
    Laid (before ++ behind) (.expr expr) := by
  have all := rows.append rest
  refine .node form all ⟨placed, fun inner within => ?_⟩
  rcases form.holds within with rfl | ⟨piece, member, holds⟩
  · exact .refl _
  obtain ⟨row, inside, laid⟩ := all.holds member holds
  constructor
  · -- It starts with a token, and none is before the first.
    obtain ⟨⟨first, others, split, start, -⟩, -⟩ := placed
    obtain ⟨⟨token, _, rfl, innerStart, -⟩, -⟩ := laid.placed
    rw [start, innerStart]
    have found := inside.subset List.mem_cons_self
    rw [split] at inOrder found
    exact (inOrder.first_le found).1
  · rcases List.mem_append.mp member with member | member
    · -- It stops with a token at the front.
      obtain ⟨row, inside, laid⟩ := rows.holds member holds
      obtain ⟨-, token, found, stop⟩ := laid.placed
      obtain ⟨later, behind, reached⟩ := reach
      rw [stop]
      exact Nat.le_trans (inOrder.stop_le (inside.subset found) behind) reached
    · exact own piece member inner holds

/-- The span of an expression may be joined with that of a closing mark. -/
theorem closed {close : Token} {mark : Mark} {head : Span}
    (inOrder : InOrder (before ++ close :: behind))
    (form : Form (.expr expr) (front ++ Piece.mark mark :: back)) (rows : Rows before front)
    (fits : mark.Fits close) (rest : Rows behind back)
    (marks : ∀ piece ∈ back, ∀ inner, ¬ Holds inner piece) (starts : Placed before head)
    (span : expr.span = head.union close.span) : Laid (before ++ close :: behind) (.expr expr) := by
  have inside : [close].Sublist (before ++ close :: behind) :=
    List.singleton_sublist.mpr (List.mem_append_right _ List.mem_cons_self)
  have stop : close.span.stop ≤ expr.span.stop := span ▸ (Span.union_covers_right _ _).2
  refine ofForm inOrder form rows (.cons (.mark fits) rest) ?_ ⟨close, List.mem_cons_self, ?_⟩ ?_
  · rw [span]
    exact (starts.more _).union inOrder (.single close) inside
  · exact Nat.le_trans (inOrder.right.each close List.mem_cons_self) stop
  · intro piece member inner holds
    rcases List.mem_cons.mp member with rfl | member
    · exact holds.elim
    · exact absurd holds (marks piece member inner)

/-- The span of an expression may be joined with that of its last operand. -/
theorem joined {head : Span} (inOrder : InOrder tokens)
    (form : Form (.expr expr) (front ++ [Piece.expr last]))
    (rows : Rows tokens (front ++ [Piece.expr last])) (starts : Placed tokens head)
    (span : expr.span = head.union last.span) : Laid tokens (.expr expr) := by
  obtain ⟨before, behind, rfl, rows, rest⟩ := rows.split
  have laid := rest.laid
  have stop : last.span.stop ≤ expr.span.stop := span ▸ (Span.union_covers_right _ _).2
  refine ofForm inOrder form rows rest ?_ ?_ ?_
  · rw [span]
    exact starts.union inOrder laid.placed (List.sublist_append_right _ _)
  · obtain ⟨⟨first, others, rfl, start, -⟩, -⟩ := laid.placed
    refine ⟨first, List.mem_cons_self, ?_⟩
    rw [← start]
    exact Nat.le_trans (laid.placed.start_le_stop inOrder.right) stop
  · intro piece member inner holds
    obtain rfl := List.mem_singleton.mp member
    exact Nat.le_trans (laid.covers holds).stop stop

end Laid

/-- Where a row starts with an expression, the tokens place its span. -/
theorem Rows.placed {tokens : List Token} {expr : Expr} {pieces : List Piece}
    (rows : Rows tokens (.expr expr :: pieces)) : Placed tokens expr.span := by
  cases rows with
  | cons laid others => exact laid.placed.more _

/-- Spans of operands in the row are joined. -/
theorem Rows.placed_foldl {tokens : List Token} {pieces : List Piece} {span : Span}
    {items : List Expr} (inOrder : InOrder tokens) (rows : Rows tokens pieces)
    (within : ∀ item ∈ items, .expr item ∈ pieces) (starts : Placed tokens span) :
    Placed tokens (items.foldl (fun span item => span.union item.span) span) := by
  induction items generalizing span with
  | nil => exact starts
  | cons item items ih =>
      rw [List.forall_mem_cons] at within
      obtain ⟨row, inside, laid⟩ := rows.mem within.1
      exact ih within.2 (starts.union inOrder laid.placed inside.sublist)

/-! ### Each kind of node -/

/-- Tokens that are in order lay out the piece. -/
def Lays (tokens : List Token) (piece : Piece) : Prop :=
  InOrder tokens → Laid tokens piece

/-- Tokens that are in order lay out the pieces one after the other. -/
def LaysAll (tokens : List Token) (pieces : List Piece) : Prop :=
  InOrder tokens → Rows tokens pieces

section

variable {tokens more : List Token} {pieces others : List Piece} {token start close : Token}
variable {expr base left right : Expr} {word opening closing : Mark}

namespace LaysAll

theorem nil : LaysAll [] [] :=
  fun _ => .nil

theorem mark (fits : word.Fits token) : LaysAll [token] [.mark word] :=
  fun _ => .mark fits

theorem append (lays : LaysAll tokens pieces) (rest : LaysAll more others) :
    LaysAll (tokens ++ more) (pieces ++ others) :=
  fun inOrder => (lays inOrder.left).append (rest inOrder.right)

end LaysAll

namespace Lays

theorem single {piece : Piece} (lays : Lays tokens piece) : LaysAll tokens [piece] :=
  fun inOrder => .single (lays inOrder)

theorem leaf (form : Form (.expr expr) [.mark word]) (fits : word.Fits token)
    (span : expr.span = token.span) : Lays [token] (.expr expr) := by
  intro inOrder
  refine .node form (.mark fits) ⟨span ▸ .single token, fun inner within => ?_⟩
  rcases form.holds within with rfl | ⟨piece, member, holds⟩
  · exact .refl _
  · obtain rfl := List.mem_singleton.mp member
    exact holds.elim

/-- A mark in front of an operand. -/
theorem prefixed (form : Form (.expr expr) ([Piece.mark word] ++ [Piece.expr right]))
    (fits : word.Fits token) (operand : Lays tokens (.expr right))
    (span : expr.span = token.span.union right.span) : Lays ([token] ++ tokens) (.expr expr) := by
  intro inOrder
  have rows := (Rows.mark fits).append (.single (operand inOrder.right))
  exact .joined inOrder form rows ((Placed.single token).more _) span

/-- An operator between two operands. -/
theorem infixed (form : Form (.expr expr) ([Piece.expr left, .mark word] ++ [Piece.expr right]))
    (lays : LaysAll tokens ([Piece.expr left, .mark word] ++ [Piece.expr right]))
    (span : expr.span = left.span.union right.span) : Lays tokens (.expr expr) := by
  intro inOrder
  have rows := lays inOrder
  exact .joined inOrder form rows rows.placed span

/-- Pieces between brackets. -/
theorem bracketed
    (form : Form (.expr expr) ([Piece.mark opening] ++ pieces ++ [Piece.mark closing]))
    (opens : opening.Fits start) (inside : LaysAll tokens pieces) (closes : closing.Fits close)
    (span : expr.span = start.span.union close.span) :
    Lays ([start] ++ tokens ++ [close]) (.expr expr) := by
  intro inOrder
  have rows := (LaysAll.mark opens).append inside inOrder.left
  exact .closed inOrder form rows closes .nil nofun ((Placed.single start).more _) span

/-- An expression with more behind it, up to a closing mark. -/
theorem suffixed (form : Form (.expr expr) (Piece.expr base :: pieces ++ [Piece.mark closing]))
    (inside : LaysAll tokens (.expr base :: pieces)) (closes : closing.Fits close)
    (span : expr.span = base.span.union close.span) : Lays (tokens ++ [close]) (.expr expr) := by
  intro inOrder
  have rows := inside inOrder.left
  exact .closed inOrder form rows closes .nil nofun rows.placed span

theorem index {id : NodeId} (callee : Lays tokens (.expr base))
    (opens : (Mark.attached .leftBracket).Fits start) (position : Lays more (.expr right))
    (closes : (Mark.symbol .rightBracket).Fits close) :
    Lays (tokens ++ [start] ++ more ++ [close])
      (.expr (.index (start.span.union close.span) id base right)) := by
  intro inOrder
  have rows := (callee.single.append (.mark opens)).append position.single inOrder.left
  have within : [start].Sublist (tokens ++ [start] ++ more) :=
    List.singleton_sublist.mpr (by simp)
  have starts := rows.placed.union inOrder.left (.single start) within
  exact .closed inOrder Form.index rows closes .nil nofun starts (Span.union_assoc _ _ _).symm

theorem function {id : NodeId} {params : List Param} {header : List Piece} {body : List Stmt}
    {final : Token} {block : List Token} (starts : (Mark.keyword .function).Fits start)
    (written : ParamList params header) (head : LaysAll tokens header)
    (inside : LaysAll block (body.map .stmt)) (ends : (Mark.keyword .end).Fits close)
    (last : (Mark.keyword .function).Fits final) :
    Lays ([start] ++ tokens ++ block ++ [close] ++ [final])
      (.expr (.function (start.span.union close.span) id params body)) := by
  intro inOrder
  rw [List.append_assoc _ [close]] at inOrder ⊢
  have rows := ((LaysAll.mark starts).append head).append inside inOrder.left
  refine .closed inOrder (Form.function written) rows ends (.mark last) ?_ ?_ rfl
  · rintro piece member inner holds
    obtain rfl := List.mem_singleton.mp member
    exact holds
  · exact ((Placed.single start).more _).more _

theorem chain {id : NodeId} {first : Expr} {links : List ((BinaryOp × Span) × Expr)}
    (some : links ≠ []) (lays : LaysAll tokens (.expr first :: links.flatMap linkPieces)) :
    Lays tokens (.expr (.chain
      ((links.map (·.2)).foldl (fun span item => span.union item.span) first.span) id
      (first :: links.map (·.2)) (links.map (·.1)))) := by
  intro inOrder
  obtain ⟨init, last, rfl⟩ := (List.eq_nil_or_concat' links).resolve_left some
  have rows := lays inOrder
  have split : Piece.expr first :: (init ++ [last]).flatMap linkPieces =
      Piece.expr first :: init.flatMap linkPieces ++ [.mark last.1.1.mark] ++ [.expr last.2] := by
    simp [linkPieces]
  have starts : Placed tokens
      ((init.map (·.2)).foldl (fun span item => span.union item.span) first.span) := by
    refine rows.placed_foldl inOrder (fun item member => ?_) rows.placed
    obtain ⟨link, linked, rfl⟩ := List.mem_map.mp member
    have piece : Piece.expr link.2 ∈ linkPieces link := by simp [linkPieces]
    have linked := List.mem_append_left [last] linked
    exact List.mem_cons_of_mem _ (List.mem_flatMap.mpr ⟨link, linked, piece⟩)
  refine .joined inOrder (split ▸ Form.chain) (split ▸ rows) starts ?_
  rw [List.map_append, List.foldl_append]
  rfl

/-- A call without parentheses. -/
theorem command {id : NodeId} {callee first last : Expr} {args : List Expr}
    (found : (first :: args).getLast? = some last)
    (lays : LaysAll tokens ([Piece.expr callee, .expr first] ++ args.flatMap argumentPieces)) :
    Lays tokens (.expr (.call (callee.span.union last.span) id callee (first :: args))) := by
  intro inOrder
  have rows := lays inOrder
  have split : ∃ front, [Piece.expr callee, .expr first] ++ args.flatMap argumentPieces =
      front ++ [.expr last] := by
    rcases List.eq_nil_or_concat' args with rfl | ⟨init, final, rfl⟩
    · obtain rfl : first = last := by simpa using found
      exact ⟨[.expr callee], rfl⟩
    · rw [← List.cons_append, List.getLast?_concat] at found
      obtain rfl := Option.some.inj found
      exact ⟨[.expr callee, .expr first] ++ init.flatMap argumentPieces ++ [.mark (.symbol .comma)],
        by simp [argumentPieces]⟩
  obtain ⟨front, split⟩ := split
  have starts := rows.placed
  refine .joined inOrder (split ▸ Form.command) (split ▸ rows) starts rfl

/-- A statement that starts with a mark is on the line of that mark. -/
theorem ofStmt {stmt : Stmt} (form : Form (.stmt stmt) pieces) (lays : LaysAll tokens pieces)
    (line : ∃ rest, tokens = start :: rest ∧ stmt.line = start.span.line) :
    Lays tokens (.stmt stmt) :=
  fun inOrder => .node form (lays inOrder) ⟨start, line⟩

/-- A statement that starts with an expression is on the line of that. -/
theorem ofTarget {stmt : Stmt} (form : Form (.stmt stmt) (.expr base :: pieces))
    (lays : LaysAll tokens (.expr base :: pieces)) (line : stmt.line = base.span.line) :
    Lays tokens (.stmt stmt) := by
  intro inOrder
  have rows := lays inOrder
  obtain ⟨⟨first, rest, split, -, same⟩, -⟩ := rows.placed
  exact .node form rows ⟨first, rest, split, line.trans same⟩

end Lays

end

end Parser

end MiniScript
