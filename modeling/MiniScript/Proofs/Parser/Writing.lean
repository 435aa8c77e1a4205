import MiniScript.Program.Parser
import MiniScript.Proofs.Number.Sign

/-!
# How a tree is written

An expression is written by a row of marks, its operands in order. Without
parentheses the row says which operand belongs to which operator only by how tightly
they bind: a tree is tight when each operand that is not in parentheses binds tightly
enough for its place.
-/

namespace MiniScript

/-- What a token has to be. -/
inductive Mark where
  | keyword (word : Keyword)
  | symbol (mark : Symbol)
  /-- An opening bracket without a blank before it. -/
  | attached (mark : Symbol)
  | name (word : String)
  /-- The name of a member, which may be spelled like a keyword. -/
  | field (word : String)
  | number (value : Float)
  | text (value : String)

/-- Whether the token is what the mark says. -/
def Mark.Fits : Mark → Token → Prop
  | .keyword word, token => token.kind = .keyword word
  | .symbol mark, token => token.kind = .symbol mark
  | .attached mark, token => token.kind = .symbol mark ∧ token.spaceBefore = false
  | .name word, token => token.kind = .name word
  | .field word, token =>
      token.kind = .name word ∨ ∃ keyword : Keyword, keyword.spelling = word ∧
        token.kind = .keyword keyword
  | .number value, token => token.kind = .number value
  | .text value, token => token.kind = .text value

theorem Mark.Fits.solid {mark : Mark} {token : Token} (fits : mark.Fits token) :
    token.kind ≠ .endOfLine := by
  intro lineEnd
  cases mark <;> simp [Mark.Fits, lineEnd] at fits

/-- The tokens start with those that the marks ask for, one for each mark, and go on with `rest`. -/
def Spells : List Mark → List Token → List Token → Prop
  | [], tokens, rest => tokens = rest
  | mark :: marks, tokens, rest =>
      ∃ token others, tokens = token :: others ∧ mark.Fits token ∧ Spells marks others rest

theorem Spells.append {first second : List Mark} {tokens rest : List Token}
    (spelled : Spells (first ++ second) tokens rest) :
    ∃ middle, Spells first tokens middle ∧ Spells second middle rest := by
  induction first generalizing tokens with
  | nil => exact ⟨tokens, rfl, spelled⟩
  | cons mark marks ih =>
      obtain ⟨token, others, split, fits, spelled⟩ := spelled
      obtain ⟨middle, before, after⟩ := ih spelled
      exact ⟨middle, ⟨token, others, split, fits, before⟩, after⟩

/-- A mark between two rows of marks. -/
theorem Spells.between {first second : List Mark} {mark : Mark} {tokens rest : List Token}
    (spelled : Spells (first ++ mark :: second) tokens rest) :
    ∃ token middle, mark.Fits token ∧ Spells first tokens (token :: middle) ∧
      Spells second middle rest := by
  obtain ⟨_, before, token, middle, rfl, fits, after⟩ := spelled.append
  exact ⟨token, middle, fits, before, after⟩

theorem Spells.last {first : List Mark} {mark : Mark} {tokens rest : List Token}
    (spelled : Spells (first ++ [mark]) tokens rest) :
    ∃ token, mark.Fits token ∧ Spells first tokens (token :: rest) := by
  obtain ⟨token, middle, fits, before, rfl⟩ := spelled.between
  exact ⟨token, fits, before⟩

namespace BinaryOp

def mark : BinaryOp → Mark
  | .add => .symbol .plus
  | .sub => .symbol .minus
  | .mul => .symbol .star
  | .div => .symbol .slash
  | .mod => .symbol .percent
  | .pow => .symbol .caret
  | .eq => .symbol .equal
  | .ne => .symbol .notEqual
  | .lt => .symbol .less
  | .le => .symbol .lessEqual
  | .gt => .symbol .greater
  | .ge => .symbol .greaterEqual
  | .isa => .keyword .isa

end BinaryOp

def LogicOp.mark : LogicOp → Mark
  | .and => .keyword .and
  | .or => .keyword .or

def UnaryOp.mark : UnaryOp → Mark
  | .neg => .symbol .minus
  | .not => .keyword .not
  | .new => .keyword .new

/-- Operands with operators between them. -/
def linked : List (List Mark) → List Mark → List Mark
  | [], _ => []
  | operand :: _, [] => operand
  | operand :: operands, op :: ops => operand ++ op :: linked operands ops

namespace Expr

mutual

/-- The marks that write an expression. A negative number is written with a minus sign. -/
def marks : Expr → List Mark
  | .number value _ _ =>
      if Number.isNegative value then [.symbol .minus, .number (-value)] else [.number value]
  | .text value _ _ => [.text value]
  | .bool true _ _ => [.keyword .true]
  | .bool false _ _ => [.keyword .false]
  | .null _ _ => [.keyword .null]
  | .name ident => [.name ident.name]
  | .self _ _ => [.keyword .self]
  | .super _ _ => [.keyword .super]
  | .unary op _ _ operand => op.mark :: operand.marks
  | .binary left op _ _ right => left.marks ++ op.mark :: right.marks
  | .logic left op _ _ right => left.marks ++ op.mark :: right.marks
  | .chain _ _ items ops => linked (marksOfEach items) (ops.map fun op => op.1.mark)
  | .group _ _ inner => .symbol .leftParen :: (inner.marks ++ [.symbol .rightParen])
  | .list _ _ items =>
      .symbol .leftBracket ::
        ([.symbol .comma].intercalate (marksOfEach items) ++ [.symbol .rightBracket])
  | .map _ _ entries =>
      .symbol .leftBrace ::
        ([.symbol .comma].intercalate (marksOfEntries entries) ++ [.symbol .rightBrace])
  | .index _ _ base position =>
      base.marks ++ .attached .leftBracket :: (position.marks ++ [.symbol .rightBracket])
  | .member base field _ => base.marks ++ [.symbol .dot, .field field.name]
  | .slice _ _ base first last =>
      base.marks ++ .attached .leftBracket ::
        (marksOfBound first ++ .symbol .colon :: (marksOfBound last ++ [.symbol .rightBracket]))
  | .call _ _ callee args =>
      callee.marks ++ .attached .leftParen ::
        ([.symbol .comma].intercalate (marksOfEach args) ++ [.symbol .rightParen])
  | .reference _ _ inner => .symbol .at :: inner.marks
  | .function .. => []

def marksOfEach : List Expr → List (List Mark)
  | [] => []
  | expr :: rest => expr.marks :: marksOfEach rest

def marksOfEntries : List (Expr × Expr) → List (List Mark)
  | [] => []
  | (key, value) :: rest => (key.marks ++ .symbol .colon :: value.marks) :: marksOfEntries rest

def marksOfBound : Option Expr → List Mark
  | none => []
  | some bound => bound.marks

end

theorem marksOfEach_eq (exprs : List Expr) : marksOfEach exprs = exprs.map marks := by
  induction exprs with
  | nil => rfl
  | cons expr rest ih => rw [marksOfEach, ih, List.map_cons]

def entryMarks (entry : Expr × Expr) : List Mark :=
  entry.1.marks ++ .symbol .colon :: entry.2.marks

theorem marksOfEntries_eq (entries : List (Expr × Expr)) :
    marksOfEntries entries = entries.map entryMarks := by
  induction entries with
  | nil => rfl
  | cons entry rest ih => rw [marksOfEntries, ih, List.map_cons, entryMarks]

def bareLink (link : BinaryOp × Span) : BinaryOp × Span :=
  (link.1, default)

mutual

/-- The expression without places and numbers. A function literal is left as it is. -/
def bare : Expr → Expr
  | .number value _ _ => .number value default 0
  | .text value _ _ => .text value default 0
  | .bool value _ _ => .bool value default 0
  | .null _ _ => .null default 0
  | .name ident => .name ⟨ident.name, default, 0⟩
  | .self _ _ => .self default 0
  | .super _ _ => .super default 0
  | .unary op _ _ operand => .unary op default 0 operand.bare
  | .binary left op _ _ right => .binary left.bare op default 0 right.bare
  | .logic left op _ _ right => .logic left.bare op default 0 right.bare
  | .chain _ _ items ops => .chain default 0 (bareEach items) (ops.map bareLink)
  | .group _ _ inner => .group default 0 inner.bare
  | .list _ _ items => .list default 0 (bareEach items)
  | .map _ _ entries => .map default 0 (bareEntries entries)
  | .index _ _ base position => .index default 0 base.bare position.bare
  | .member base field _ => .member base.bare ⟨field.name, default, 0⟩ 0
  | .slice _ _ base first last => .slice default 0 base.bare (bareBound first) (bareBound last)
  | .call _ _ callee args => .call default 0 callee.bare (bareEach args)
  | .reference _ _ inner => .reference default 0 inner.bare
  | .function span id params body => .function span id params body

def bareEach : List Expr → List Expr
  | [] => []
  | expr :: rest => expr.bare :: bareEach rest

def bareEntries : List (Expr × Expr) → List (Expr × Expr)
  | [] => []
  | (key, value) :: rest => (key.bare, value.bare) :: bareEntries rest

def bareBound : Option Expr → Option Expr
  | none => none
  | some bound => some bound.bare

end

theorem bareEach_eq (exprs : List Expr) : bareEach exprs = exprs.map bare := by
  induction exprs with
  | nil => rfl
  | cons expr rest ih => rw [bareEach, ih, List.map_cons]

def bareEntry (entry : Expr × Expr) : Expr × Expr :=
  (entry.1.bare, entry.2.bare)

theorem bareEntries_eq (entries : List (Expr × Expr)) :
    bareEntries entries = entries.map bareEntry := by
  induction entries with
  | nil => rfl
  | cons entry rest ih => rw [bareEntries, ih, List.map_cons, bareEntry]

section

variable (span : Span) (id : NodeId)

@[simp] theorem bare_unary (op : UnaryOp) (operand : Expr) :
    (Expr.unary op span id operand).bare = .unary op default 0 operand.bare := rfl

@[simp] theorem bare_binary (left : Expr) (op : BinaryOp) (right : Expr) :
    (Expr.binary left op span id right).bare = .binary left.bare op default 0 right.bare := rfl

@[simp] theorem bare_logic (left : Expr) (op : LogicOp) (right : Expr) :
    (Expr.logic left op span id right).bare = .logic left.bare op default 0 right.bare := rfl

@[simp] theorem bare_chain (items : List Expr) (ops : List (BinaryOp × Span)) :
    (Expr.chain span id items ops).bare =
      .chain default 0 (items.map bare) (ops.map bareLink) := by
  rw [← bareEach_eq]
  rfl

@[simp] theorem bare_group (inner : Expr) :
    (Expr.group span id inner).bare = .group default 0 inner.bare := rfl

@[simp] theorem bare_list (items : List Expr) :
    (Expr.list span id items).bare = .list default 0 (items.map bare) := by
  rw [← bareEach_eq]
  rfl

@[simp] theorem bare_map (entries : List (Expr × Expr)) :
    (Expr.map span id entries).bare = .map default 0 (entries.map bareEntry) := by
  rw [← bareEntries_eq]
  rfl

@[simp] theorem bare_index (base position : Expr) :
    (Expr.index span id base position).bare = .index default 0 base.bare position.bare := rfl

@[simp] theorem bare_member (base : Expr) (field : Ident) :
    (Expr.member base field id).bare = .member base.bare ⟨field.name, default, 0⟩ 0 := rfl

@[simp] theorem bare_slice (base : Expr) (first last : Option Expr) :
    (Expr.slice span id base first last).bare =
      .slice default 0 base.bare (first.map bare) (last.map bare) := by
  cases first <;> cases last <;> rfl

@[simp] theorem bare_call (callee : Expr) (args : List Expr) :
    (Expr.call span id callee args).bare = .call default 0 callee.bare (args.map bare) := by
  rw [← bareEach_eq]
  rfl

@[simp] theorem bare_reference (inner : Expr) :
    (Expr.reference span id inner).bare = .reference default 0 inner.bare := rfl

@[simp] theorem marks_number (value : Float) : (Expr.number value span id).marks =
    if Number.isNegative value then [.symbol .minus, .number (-value)] else [.number value] := rfl

end

end Expr

namespace Parser

def notLevel : Nat := 3
def signLevel : Nat := 7
def powerLevel : Nat := 8
def referenceLevel : Nat := 9
def suffixLevel : Nat := 10

end Parser

open MiniScript.Parser

def BinaryOp.level : BinaryOp → Nat
  | .add | .sub => sumLevel
  | .mul | .div | .mod => productLevel
  | .pow => powerLevel
  | .eq | .ne | .lt | .le | .gt | .ge | .isa => comparisonLevel

def LogicOp.level : LogicOp → Nat
  | .and => andLevel
  | .or => orLevel

theorem BinaryOp.level_of_isComparison {op : BinaryOp} (comparison : op.isComparison = true) :
    op.level = comparisonLevel := by
  cases op <;> first | rfl | cases comparison

theorem BinaryOp.infixOf_of_fits {op : BinaryOp} {token : Token} (fits : op.mark.Fits token)
    (other : op ≠ .pow) : infixOf token.kind = some (op.level, .binary op) := by
  cases op <;> first | exact absurd rfl other | (rw [show token.kind = _ from fits]; rfl)

theorem LogicOp.infixOf_of_fits {op : LogicOp} {token : Token} (fits : op.mark.Fits token) :
    infixOf token.kind = some (op.level, .logic op) := by
  cases op <;> (rw [show token.kind = _ from fits]; rfl)

namespace Expr

/-- How tightly an expression binds. -/
def level : Expr → Nat
  | .logic _ op _ _ _ => op.level
  | .unary .not _ _ _ => notLevel
  | .chain .. => comparisonLevel
  | .binary _ op _ _ _ => op.level
  | .unary .neg _ _ _ => signLevel
  | .unary .new _ _ _ => signLevel
  | .number value _ _ => if Number.isNegative value then signLevel else suffixLevel
  | .reference .. => referenceLevel
  | _ => suffixLevel

def isNumber : Expr → Bool
  | .number .. => true
  | _ => false

@[simp] theorem level_number (value : Float) (span : Span) (id : NodeId) :
    (Expr.number value span id).level =
      if Number.isNegative value then signLevel else suffixLevel := rfl

theorem isNumber_bare (expr : Expr) : expr.bare.isNumber = expr.isNumber := by
  cases expr <;> rfl

/-- Each operand binds tightly enough for its place. -/
inductive Tight : Expr → Prop where
  | number {value span id} : Tight (.number value span id)
  | text {value span id} : Tight (.text value span id)
  | bool {value span id} : Tight (.bool value span id)
  | null {span id} : Tight (.null span id)
  | name {ident} : Tight (.name ident)
  | self {span id} : Tight (.self span id)
  | super {span id} : Tight (.super span id)
  | group {span id inner} : Tight inner → Tight (.group span id inner)
  | list {span id items} : (∀ item ∈ items, Tight item) → Tight (.list span id items)
  | map {span id entries} :
      (∀ entry ∈ entries, Tight entry.1) → (∀ entry ∈ entries, Tight entry.2) →
      Tight (.map span id entries)
  | member {base field id} : Tight base → suffixLevel ≤ base.level →
      Tight (.member base field id)
  | index {span id base position} : Tight base → suffixLevel ≤ base.level → Tight position →
      Tight (.index span id base position)
  | slice {span id base first last} : Tight base → suffixLevel ≤ base.level →
      (∀ bound ∈ first, Tight bound) → (∀ bound ∈ last, Tight bound) →
      Tight (.slice span id base first last)
  | call {span id callee args} : Tight callee → suffixLevel ≤ callee.level →
      (∀ arg ∈ args, Tight arg) → Tight (.call span id callee args)
  | reference {span id inner} : Tight inner → suffixLevel ≤ inner.level →
      Tight (.reference span id inner)
  | power {base span id exponent} : Tight base → referenceLevel ≤ base.level →
      Tight exponent → signLevel ≤ exponent.level →
      Tight (.binary base .pow span id exponent)
  /-- A number takes the minus sign into itself, so there is no minus sign around one. -/
  | neg {span id operand} : Tight operand → signLevel ≤ operand.level →
      operand.isNumber = false → Tight (.unary .neg span id operand)
  | new {span id operand} : Tight operand → signLevel ≤ operand.level →
      Tight (.unary .new span id operand)
  | not {span id operand} : Tight operand → notLevel ≤ operand.level →
      Tight (.unary .not span id operand)
  /-- Sums and products group to the left. -/
  | arithmetic {left op span id right} : op.level = sumLevel ∨ op.level = productLevel →
      Tight left → op.level ≤ left.level → Tight right → op.level < right.level →
      Tight (.binary left op span id right)
  | comparison {left op span id right} : op.isComparison = true →
      Tight left → comparisonLevel < left.level → Tight right → comparisonLevel < right.level →
      Tight (.binary left op span id right)
  /-- Two comparisons or more in a row. -/
  | chain {span id first rest ops} : (∀ op ∈ ops, op.1.isComparison = true) →
      ops.length = rest.length → 2 ≤ rest.length →
      Tight first → comparisonLevel < first.level →
      (∀ item ∈ rest, Tight item) → (∀ item ∈ rest, comparisonLevel < item.level) →
      Tight (.chain span id (first :: rest) ops)
  | logic {left op span id right} :
      Tight left → op.level ≤ left.level → Tight right → op.level < right.level →
      Tight (.logic left op span id right)

end Expr

end MiniScript
