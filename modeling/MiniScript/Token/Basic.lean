import MiniScript.Number.Text
import MiniScript.Token.Keyword
import MiniScript.Token.Symbol

/-!
# Tokens

What the parser reads: a kind, the place it was read from, and whether a gap
separates it from the token before. A place is a range of byte offsets together
with the line it starts on. A parse error tells the line, and often the token
that was found.
-/

namespace MiniScript

structure Span where
  start : Nat
  stop : Nat
  /-- The line of `start`, counted from one. -/
  line : Nat
deriving DecidableEq, Repr, Inhabited

/-- The least span that covers both, on the earlier of the two lines. -/
def Span.union (left right : Span) : Span where
  start := min left.start right.start
  stop := max left.stop right.stop
  line := min left.line right.line

theorem Span.union_covers_left (left right : Span) :
    (left.union right).start ≤ left.start ∧ left.stop ≤ (left.union right).stop :=
  ⟨Nat.min_le_left _ _, Nat.le_max_left _ _⟩

theorem Span.union_covers_right (left right : Span) :
    (left.union right).start ≤ right.start ∧ right.stop ≤ (left.union right).stop :=
  ⟨Nat.min_le_right _ _, Nat.le_max_right _ _⟩

theorem Span.union_of_start_le {left right : Span} (start : left.start ≤ right.start)
    (line : left.line ≤ right.line) :
    (left.union right).start = left.start ∧ (left.union right).line = left.line :=
  ⟨Nat.min_eq_left start, Nat.min_eq_left line⟩

namespace Token

inductive Kind where
  | keyword (word : Keyword)
  | symbol (mark : Symbol)
  | name (word : String)
  | number (value : Float)
  | text (value : String)
  | endOfLine
  | invalid (char : Char)
  | unterminatedText
  | endOfFile

/-- How a token is named in messages. -/
def Kind.describe : Kind → String
  | .keyword word => "`" ++ word.spelling ++ "`"
  | .symbol mark => "`" ++ mark.spelling ++ "`"
  | .name word => "identifier `" ++ word ++ "`"
  | .number value => "number `" ++ Number.plain value ++ "`"
  | .text value => "string \"" ++ value ++ "\""
  | .endOfLine => "end of line"
  | .invalid char => "invalid character `" ++ String.ofList [char] ++ "`"
  | .unterminatedText => "unterminated string"
  | .endOfFile => "end of file"

def Kind.isKeyword (word : Keyword) : Kind → Bool
  | .keyword other => word == other
  | _ => false

def Kind.isSymbol (mark : Symbol) : Kind → Bool
  | .symbol other => mark == other
  | _ => false

def Kind.isEndOfLine : Kind → Bool
  | .endOfLine => true
  | _ => false

def Kind.isEndOfFile : Kind → Bool
  | .endOfFile => true
  | _ => false

theorem Kind.isKeyword_iff {word : Keyword} {kind : Kind} :
    kind.isKeyword word = true ↔ kind = .keyword word := by
  cases kind <;> simp [Kind.isKeyword]
  exact eq_comm

theorem Kind.isSymbol_iff {mark : Symbol} {kind : Kind} :
    kind.isSymbol mark = true ↔ kind = .symbol mark := by
  cases kind <;> simp [Kind.isSymbol]
  exact eq_comm

end Token

structure Token where
  kind : Token.Kind
  span : Span
  /-- Whether blanks or a comment separate this token from the one before. -/
  spaceBefore : Bool

/-- Why a text is not a program. -/
inductive ParseError where
  | unexpectedToken (expected : String) (found : Token.Kind) (line : Nat)
  | unterminatedText (line : Nat)
  | invalidAssignmentTarget (line : Nat)
  | nonLiteralDefault (param : String) (line : Nat)

namespace ParseError

def line : ParseError → Nat
  | .unexpectedToken _ _ line => line
  | .unterminatedText line => line
  | .invalidAssignmentTarget line => line
  | .nonLiteralDefault _ line => line

/-- What went wrong, without the place. -/
def reason : ParseError → String
  | .unexpectedToken expected found _ => "expected " ++ expected ++ ", found " ++ found.describe
  | .unterminatedText _ => "unterminated string"
  | .invalidAssignmentTarget _ => "invalid assignment target"
  | .nonLiteralDefault param _ => "default value for `" ++ param ++ "` must be a literal"

def message (error : ParseError) : String :=
  "parse error on line " ++ toString error.line ++ ": " ++ error.reason

end ParseError

end MiniScript
