import MiniScript.Token.Basic
import MiniScript.Program.Tree

/-!
# Parser state

A parser stands at a token and knows those ahead of it. It never moves past the
last one. Inside brackets the line ends after a token are skipped together with
it. Of the tokens and the statements behind it remembers how many brackets were
open there. A reply keeps a parse error, with the place where it came up, apart
from running out of steps.
-/

namespace MiniScript.Parser

structure State where
  current : Token
  ahead : List Token
  /-- How many brackets are open; line ends inside them mean nothing. -/
  nesting : Nat
  nextId : NodeId
  /-- How many brackets were open at each token that has been passed, the latest first. -/
  passed : List Nat := []
  /-- How many brackets were open where each statement was begun, the latest first. -/
  begun : List Nat := []

inductive Reply (α : Type) where
  | ok (value : α) (state : State)
  | failed (error : ParseError) (state : State)
  | exhausted

end Parser

/-- A computation that reads tokens. -/
def Parser (α : Type) : Type :=
  Parser.State → Parser.Reply α

namespace Parser

def pure {α : Type} (value : α) : Parser α :=
  fun state => .ok value state

def andThen {α β : Type} (first : Parser α) (next : α → Parser β) : Parser β :=
  fun state =>
    match first state with
    | .ok value after => next value after
    | .failed error stopped => .failed error stopped
    | .exhausted => .exhausted

instance : Monad Parser where
  pure := pure
  bind := andThen

theorem bind_ok {α β : Type} {first : Parser α} {next : α → Parser β} {state after : State}
    {value : α} (done : first state = .ok value after) :
    (first >>= next) state = next value after := by
  show andThen first next state = _
  simp [andThen, done]

/-- A result has come from a result of each part. -/
theorem bind_inv {α β : Type} {first : Parser α} {next : α → Parser β} {state after : State}
    {result : β} (ran : (first >>= next) state = .ok result after) :
    ∃ value between, first state = .ok value between ∧ next value between = .ok result after := by
  change andThen first next state = _ at ran
  unfold andThen at ran
  cases reply : first state with
  | ok value between =>
      rw [reply] at ran
      exact ⟨value, between, rfl, ran⟩
  | failed error stopped =>
      rw [reply] at ran
      exact nomatch ran
  | exhausted =>
      rw [reply] at ran
      exact nomatch ran

def fail {α : Type} (error : ParseError) : Parser α :=
  fun state => .failed error state

def outOfFuel {α : Type} : Parser α :=
  fun _ => .exhausted

namespace State

def kind (state : State) : Token.Kind :=
  state.current.kind

def span (state : State) : Span :=
  state.current.span

/-- One token forward, if there is one ahead. -/
def step (state : State) : State :=
  match state.ahead with
  | [] => state
  | token :: rest =>
      { state with current := token, ahead := rest, passed := state.nesting :: state.passed }

/-- Forward while `skipped` holds for the current token, at most `count` tokens. -/
def skipSteps (skipped : Token.Kind → Bool) : Nat → State → State
  | 0, state => state
  | count + 1, state =>
      if skipped state.kind then skipSteps skipped count state.step else state

/-- To the first token that `skipped` does not hold for, or to the last token. -/
def skip (skipped : Token.Kind → Bool) (state : State) : State :=
  state.skipSteps skipped state.ahead.length

def skipLineEnds (state : State) : State :=
  state.skip Token.Kind.isEndOfLine

/-- One token forward, and past line ends inside brackets. -/
def advance (state : State) : State :=
  if 0 < state.nesting then state.step.skipLineEnds else state.step

theorem step_ahead_length (state : State) : state.step.ahead.length = state.ahead.length - 1 := by
  unfold step
  split <;> simp_all

end State

def kind : Parser Token.Kind :=
  fun state => .ok state.kind state

def span : Parser Span :=
  fun state => .ok state.span state

def currentToken : Parser Token :=
  fun state => .ok state.current state

/-- The token after the current one. -/
def nextToken : Parser (Option Token) :=
  fun state => .ok state.ahead.head? state

def advance : Parser Unit :=
  fun state => .ok () state.advance

def skipLineEnds : Parser Unit :=
  fun state => .ok () state.skipLineEnds

def isSeparator : Token.Kind → Bool
  | .endOfLine => true
  | .symbol .semicolon => true
  | _ => false

def skipSeparators : Parser Unit :=
  fun state => .ok () (state.skip isSeparator)

/-- The number of the next node. -/
def newId : Parser NodeId :=
  fun state => .ok state.nextId { state with nextId := state.nextId + 1 }

def openBracket : Parser Unit :=
  fun state => .ok () { state with nesting := state.nesting + 1 }

def closeBracket : Parser Unit :=
  fun state => .ok () { state with nesting := state.nesting - 1 }

def getNesting : Parser Nat :=
  fun state => .ok state.nesting state

def setNesting (nesting : Nat) : Parser Unit :=
  fun state => .ok () { state with nesting }

/-- A statement starts at the current token. -/
def beginStatement : Parser Unit :=
  fun state => .ok () { state with begun := state.nesting :: state.begun }

/-- Fails at the current token, where `expected` should have stood. -/
def unexpected {α : Type} (expected : String) : Parser α :=
  fun state =>
    match state.kind with
    | .unterminatedText => .failed (.unterminatedText state.span.line) state
    | found => .failed (.unexpectedToken expected found state.span.line) state

theorem unexpected_ne_ok {α : Type} {expected : String} {state after : State} {value : α} :
    unexpected expected state ≠ .ok value after := by
  unfold unexpected
  split <;> nofun

def expectKeyword (word : Keyword) : Parser Span :=
  fun state =>
    if state.kind.isKeyword word then .ok state.span state.advance
    else unexpected ("`" ++ word.spelling ++ "`") state

def expectSymbol (mark : Symbol) : Parser Span :=
  fun state =>
    if state.kind.isSymbol mark then .ok state.span state.advance
    else unexpected ("`" ++ mark.spelling ++ "`") state

def atKeyword (word : Keyword) : Parser Bool :=
  fun state => .ok (state.kind.isKeyword word) state

def atSymbol (mark : Symbol) : Parser Bool :=
  fun state => .ok (state.kind.isSymbol mark) state

end MiniScript.Parser
