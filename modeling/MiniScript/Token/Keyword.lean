/-!
# Reserved words

The words that cannot name a variable. Each has one spelling, and a word is a
keyword exactly when it is spelled like one.
-/

namespace MiniScript

inductive Keyword where
  | if | then | else | end | while | for | in | break | continue | return | function
  | and | or | not | isa | new | null | true | false | self | super
deriving DecidableEq, Repr

namespace Keyword

def spelling : Keyword → String
  | .if => "if"
  | .then => "then"
  | .else => "else"
  | .end => "end"
  | .while => "while"
  | .for => "for"
  | .in => "in"
  | .break => "break"
  | .continue => "continue"
  | .return => "return"
  | .function => "function"
  | .and => "and"
  | .or => "or"
  | .not => "not"
  | .isa => "isa"
  | .new => "new"
  | .null => "null"
  | .true => "true"
  | .false => "false"
  | .self => "self"
  | .super => "super"

def all : List Keyword :=
  [.if, .then, .else, .end, .while, .for, .in, .break, .continue, .return, .function,
    .and, .or, .not, .isa, .new, .null, .true, .false, .self, .super]

def ofSpelling? (word : String) : Option Keyword :=
  all.find? fun keyword => keyword.spelling == word

theorem spelling_of_ofSpelling? {word : String} {keyword : Keyword}
    (found : ofSpelling? word = some keyword) : keyword.spelling = word := by
  simpa using List.find?_some found

theorem ofSpelling?_spelling (keyword : Keyword) :
    ofSpelling? keyword.spelling = some keyword := by
  cases keyword <;> decide

end Keyword

end MiniScript
