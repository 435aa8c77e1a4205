/-!
# Operators and punctuation
-/

namespace MiniScript

inductive Symbol where
  | plus | minus | star | slash | percent | caret
  | equal | notEqual | less | lessEqual | greater | greaterEqual
  | assign | plusAssign | minusAssign | starAssign | slashAssign | percentAssign | caretAssign
  | leftParen | rightParen | leftBracket | rightBracket | leftBrace | rightBrace
  | comma | colon | dot | at | semicolon
deriving DecidableEq, Repr

namespace Symbol

def spelling : Symbol → String
  | .plus => "+"
  | .minus => "-"
  | .star => "*"
  | .slash => "/"
  | .percent => "%"
  | .caret => "^"
  | .equal => "=="
  | .notEqual => "!="
  | .less => "<"
  | .lessEqual => "<="
  | .greater => ">"
  | .greaterEqual => ">="
  | .assign => "="
  | .plusAssign => "+="
  | .minusAssign => "-="
  | .starAssign => "*="
  | .slashAssign => "/="
  | .percentAssign => "%="
  | .caretAssign => "^="
  | .leftParen => "("
  | .rightParen => ")"
  | .leftBracket => "["
  | .rightBracket => "]"
  | .leftBrace => "\x7b"
  | .rightBrace => "\x7d"
  | .comma => ","
  | .colon => ":"
  | .dot => "."
  | .at => "@"
  | .semicolon => ";"

/-- The symbol written by one character alone. -/
def ofChar? : Char → Option Symbol
  | '+' => some .plus
  | '-' => some .minus
  | '*' => some .star
  | '/' => some .slash
  | '%' => some .percent
  | '^' => some .caret
  | '=' => some .assign
  | '<' => some .less
  | '>' => some .greater
  | '(' => some .leftParen
  | ')' => some .rightParen
  | '[' => some .leftBracket
  | ']' => some .rightBracket
  | '{' => some .leftBrace
  | '}' => some .rightBrace
  | ',' => some .comma
  | ':' => some .colon
  | '.' => some .dot
  | '@' => some .at
  | ';' => some .semicolon
  | _ => none

/-- The symbol written by one character followed by an equals sign. -/
def ofCharEquals? : Char → Option Symbol
  | '+' => some .plusAssign
  | '-' => some .minusAssign
  | '*' => some .starAssign
  | '/' => some .slashAssign
  | '%' => some .percentAssign
  | '^' => some .caretAssign
  | '=' => some .equal
  | '!' => some .notEqual
  | '<' => some .lessEqual
  | '>' => some .greaterEqual
  | _ => none

theorem spelling_of_ofChar? {char : Char} {symbol : Symbol} (found : ofChar? char = some symbol) :
    symbol.spelling = String.ofList [char] := by
  unfold ofChar? at found
  split at found <;> cases found <;> decide

theorem spelling_of_ofCharEquals? {char : Char} {symbol : Symbol}
    (found : ofCharEquals? char = some symbol) :
    symbol.spelling = String.ofList [char, '='] := by
  unfold ofCharEquals? at found
  split at found <;> cases found <;> decide

end Symbol

end MiniScript
