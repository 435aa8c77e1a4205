import MiniScript.Program.ParserState
import MiniScript.Token.Lexer

/-!
# Parsing programs

A recursive descent parser. Binding strength rises from `or` through `and`,
comparisons, sums and products to the signs, powers and suffixes; adjacent
comparisons form one chain. Each procedure takes the number of steps it may
still nest; `parseTokens` starts with more than the tokens can use up.
-/

namespace MiniScript.Parser

def orLevel : Nat := 1
def andLevel : Nat := 2
def comparisonLevel : Nat := 4
def sumLevel : Nat := 5
def productLevel : Nat := 6

/-- An operator between two operands. -/
inductive Infix where
  | logic (op : LogicOp)
  | binary (op : BinaryOp)

/-- The operator that a token writes, with its binding level. -/
def infixOf : Token.Kind → Option (Nat × Infix)
  | .keyword .or => some (orLevel, .logic .or)
  | .keyword .and => some (andLevel, .logic .and)
  | .symbol .equal => some (comparisonLevel, .binary .eq)
  | .symbol .notEqual => some (comparisonLevel, .binary .ne)
  | .symbol .less => some (comparisonLevel, .binary .lt)
  | .symbol .lessEqual => some (comparisonLevel, .binary .le)
  | .symbol .greater => some (comparisonLevel, .binary .gt)
  | .symbol .greaterEqual => some (comparisonLevel, .binary .ge)
  | .keyword .isa => some (comparisonLevel, .binary .isa)
  | .symbol .plus => some (sumLevel, .binary .add)
  | .symbol .minus => some (sumLevel, .binary .sub)
  | .symbol .star => some (productLevel, .binary .mul)
  | .symbol .slash => some (productLevel, .binary .div)
  | .symbol .percent => some (productLevel, .binary .mod)
  | _ => none

/-- The comparison that a token writes. -/
def comparisonOf (kind : Token.Kind) : Option BinaryOp :=
  match infixOf kind with
  | some (_, .binary op) => if op.isComparison then some op else none
  | _ => none

/-- The assignment that a token writes: plain, or with an operator. -/
def assignmentOf : Token.Kind → Option (Option BinaryOp)
  | .symbol .assign => some none
  | .symbol .plusAssign => some (some .add)
  | .symbol .minusAssign => some (some .sub)
  | .symbol .starAssign => some (some .mul)
  | .symbol .slashAssign => some (some .div)
  | .symbol .percentAssign => some (some .mod)
  | .symbol .caretAssign => some (some .pow)
  | _ => none

/-- What an assignment can store to. -/
def isTarget : Expr → Bool
  | .name _ => true
  | .index .. => true
  | .member .. => true
  | _ => false

def isLiteral : Expr → Bool
  | .number .. => true
  | .text .. => true
  | .bool .. => true
  | .null .. => true
  | _ => false

/-- Whether a token can start the first argument of a call without parentheses. Brackets need a
blank before them, a minus sign a blank before it and none after it. -/
def startsArgument (token : Token) (next : Option Token) : Bool :=
  match token.kind with
  | .number _ | .text _ | .name _ => true
  | .keyword word =>
      match word with
      | .true | .false | .null | .self | .super | .function | .not | .new => true
      | _ => false
  | .symbol mark =>
      match mark with
      | .at | .leftBrace => true
      | .leftBracket | .leftParen => token.spaceBefore
      | .minus =>
          token.spaceBefore &&
            match next with
            | some after => !after.spaceBefore
            | none => false
      | _ => false
  | _ => false

/-- Where a `return` has no value. -/
def endsStatement : Token.Kind → Bool
  | .endOfLine | .symbol .semicolon | .endOfFile | .keyword .else => true
  | _ => false

def expectName : Parser Ident := do
  match ← kind with
  | .name name =>
      let span ← span
      advance
      let id ← newId
      return ⟨name, span, id⟩
  | _ => unexpected "identifier"

/-- A member name may be a keyword. -/
def expectMemberName : Parser Ident := do
  let span ← span
  match ← kind with
  | .name name =>
      advance
      let id ← newId
      return ⟨name, span, id⟩
  | .keyword word =>
      advance
      let id ← newId
      return ⟨word.spelling, span, id⟩
  | _ => unexpected "member name"

def expectStatementEnd : Parser Unit := do
  match ← kind with
  | .endOfLine => advance
  | .symbol .semicolon => advance
  | .endOfFile => return ()
  | _ => unexpected "end of statement"

def expectEnd (word : Keyword) : Parser Unit := do
  let _ ← expectKeyword .end
  let _ ← expectKeyword word

/-- One comparison of two operands is a binary node, more are a chain. -/
def chainNode (first : Expr) (rest : List Expr) (ops : List (BinaryOp × Span)) : Parser Expr := do
  let id ← newId
  match rest, ops with
  | [right], [(op, opSpan)] => return .binary first op opSpan id right
  | _, _ =>
      let span := rest.foldl (fun span item => span.union item.span) first.span
      return .chain span id (first :: rest) ops

/-- A minus sign in front of a number literal belongs to the literal. -/
def unaryNode (op : UnaryOp) (opSpan : Span) (operand : Expr) : Parser Expr :=
  match op, operand with
  | .neg, .number value span id => return .number (-value) (opSpan.union span) id
  | op, operand => do
      let id ← newId
      return .unary op opSpan id operand

/-- After an item of a bracketed list: whether another one may follow. -/
def afterItem (close : Symbol) : Parser Unit := do
  if ← atSymbol .comma then advance
  else if ← atSymbol close then return ()
  else
    closeBracket
    unexpected ("`,` or `" ++ close.spelling ++ "`")

mutual

def parseExpr : Nat → Parser Expr
  | 0 => outOfFuel
  | fuel + 1 => do
      let left ← parseUnary fuel
      parseBinaryRest fuel left orLevel

/-- Operators of at least `level` and their right operands, after `left`. -/
def parseBinaryRest : Nat → Expr → Nat → Parser Expr
  | 0, _, _ => outOfFuel
  | fuel + 1, left, level => do
      match infixOf (← kind) with
      | none => return left
      | some (strength, operator) =>
          if strength < level then return left
          else
            let opSpan ← span
            match operator with
            | .logic op =>
                let right ← parseRightOperand fuel (strength + 1)
                let id ← newId
                parseBinaryRest fuel (.logic left op opSpan id right) level
            | .binary op =>
                if op.isComparison then
                  let chain ← parseChain fuel left [] [] op opSpan
                  parseBinaryRest fuel chain level
                else
                  let right ← parseRightOperand fuel (strength + 1)
                  let id ← newId
                  parseBinaryRest fuel (.binary left op opSpan id right) level

/-- The operator at the current token, and the operand after it of at least `level`. -/
def parseRightOperand : Nat → Nat → Parser Expr
  | 0, _ => outOfFuel
  | fuel + 1, level => do
      advance
      skipLineEnds
      let operand ← parseUnary fuel
      parseBinaryRest fuel operand level

/-- A chain of comparisons: the operator at the current token continues the operands so far, which
are held in reverse after the first. -/
def parseChain : Nat → Expr → List Expr → List (BinaryOp × Span) → BinaryOp → Span → Parser Expr
  | 0, _, _, _, _, _ => outOfFuel
  | fuel + 1, first, rest, ops, op, opSpan => do
      let operand ← parseRightOperand fuel sumLevel
      let rest := operand :: rest
      let ops := (op, opSpan) :: ops
      match comparisonOf (← kind) with
      | some next =>
          let nextSpan ← span
          parseChain fuel first rest ops next nextSpan
      | none => chainNode first rest.reverse ops.reverse

def parseUnary : Nat → Parser Expr
  | 0 => outOfFuel
  | fuel + 1 => do
      let opSpan ← span
      match ← kind with
      | .keyword .not =>
          advance
          let operand ← parseUnary fuel
          let operand ← parseBinaryRest fuel operand comparisonLevel
          unaryNode .not opSpan operand
      | .symbol .minus =>
          advance
          let operand ← parseUnary fuel
          unaryNode .neg opSpan operand
      | .keyword .new =>
          advance
          let operand ← parseUnary fuel
          unaryNode .new opSpan operand
      | _ => parsePower fuel

def parsePower : Nat → Parser Expr
  | 0 => outOfFuel
  | fuel + 1 => do
      if ← atSymbol .at then
        let atSpan ← span
        advance
        let inner ← parsePostfix fuel
        let id ← newId
        parsePowerRest fuel (.reference (atSpan.union inner.span) id inner)
      else
        let base ← parsePostfix fuel
        parsePowerRest fuel base

/-- The exponent after `base`, which may carry its own sign. -/
def parsePowerRest : Nat → Expr → Parser Expr
  | 0, _ => outOfFuel
  | fuel + 1, base => do
      if ← atSymbol .caret then
        let opSpan ← span
        advance
        skipLineEnds
        let exponent ← parseUnary fuel
        let id ← newId
        return .binary base .pow opSpan id exponent
      else return base

def parsePostfix : Nat → Parser Expr
  | 0 => outOfFuel
  | fuel + 1 => do
      let primary ← parsePrimary fuel
      parseSuffixes fuel primary

/-- Members, and brackets and parentheses that follow without a blank. -/
def parseSuffixes : Nat → Expr → Parser Expr
  | 0, _ => outOfFuel
  | fuel + 1, base => do
      let token ← currentToken
      match token.kind with
      | .symbol .dot =>
          advance
          let field ← expectMemberName
          let id ← newId
          parseSuffixes fuel (.member base field id)
      | .symbol .leftBracket =>
          if token.spaceBefore then return base
          else
            let suffixed ← parseIndexOrSlice fuel base
            parseSuffixes fuel suffixed
      | .symbol .leftParen =>
          if token.spaceBefore then return base
          else
            openBracket
            advance
            let args ← parseItems fuel .rightParen []
            closeBracket
            let close ← expectSymbol .rightParen
            let id ← newId
            parseSuffixes fuel (.call (base.span.union close) id base args)
      | _ => return base

/-- Expressions separated by commas up to `close`, after those gathered in reverse. -/
def parseItems : Nat → Symbol → List Expr → Parser (List Expr)
  | 0, _, _ => outOfFuel
  | fuel + 1, close, gathered => do
      if ← atSymbol close then return gathered.reverse
      else
        let item ← parseExpr fuel
        afterItem close
        parseItems fuel close (item :: gathered)

/-- An expression, unless `stop` stands here. -/
def parseUnless : Nat → Symbol → Parser (Option Expr)
  | 0, _ => outOfFuel
  | fuel + 1, stop => do
      if ← atSymbol stop then return none
      else
        let value ← parseExpr fuel
        return some value

def parseIndexOrSlice : Nat → Expr → Parser Expr
  | 0, _ => outOfFuel
  | fuel + 1, base => do
      let openSpan ← span
      openBracket
      advance
      let first ← parseUnless fuel .colon
      if ← atSymbol .colon then
        advance
        let last ← parseUnless fuel .rightBracket
        closeBracket
        let close ← expectSymbol .rightBracket
        let id ← newId
        return .slice (base.span.union close) id base first last
      else
        closeBracket
        let close ← expectSymbol .rightBracket
        match first with
        | none => unexpected "index expression"
        | some index =>
            let id ← newId
            return .index (openSpan.union close) id base index

def parsePrimary : Nat → Parser Expr
  | 0 => outOfFuel
  | fuel + 1 => do
      let start ← span
      match ← kind with
      | .number value =>
          advance
          let id ← newId
          return .number value start id
      | .text value =>
          advance
          let id ← newId
          return .text value start id
      | .name name =>
          advance
          let id ← newId
          return .name ⟨name, start, id⟩
      | .keyword word =>
          match word with
          | .true =>
              advance
              let id ← newId
              return .bool true start id
          | .false =>
              advance
              let id ← newId
              return .bool false start id
          | .null =>
              advance
              let id ← newId
              return .null start id
          | .self =>
              advance
              let id ← newId
              return .self start id
          | .super =>
              advance
              let id ← newId
              return .super start id
          | .function => parseFunction fuel
          | _ => unexpected "expression"
      | .symbol mark =>
          match mark with
          | .leftParen =>
              openBracket
              advance
              let inner ← parseExpr fuel
              closeBracket
              let close ← expectSymbol .rightParen
              let id ← newId
              return .group (start.union close) id inner
          | .leftBracket =>
              openBracket
              advance
              let items ← parseItems fuel .rightBracket []
              closeBracket
              let close ← expectSymbol .rightBracket
              let id ← newId
              return .list (start.union close) id items
          | .leftBrace =>
              openBracket
              advance
              let entries ← parseEntries fuel []
              closeBracket
              let close ← expectSymbol .rightBrace
              let id ← newId
              return .map (start.union close) id entries
          | _ => unexpected "expression"
      | _ => unexpected "expression"

/-- Keys and values up to the closing brace, after those gathered in reverse. -/
def parseEntries : Nat → List (Expr × Expr) → Parser (List (Expr × Expr))
  | 0, _ => outOfFuel
  | fuel + 1, gathered => do
      if ← atSymbol .rightBrace then return gathered.reverse
      else
        let key ← parseExpr fuel
        if ← atSymbol .colon then
          advance
          let value ← parseExpr fuel
          afterItem .rightBrace
          parseEntries fuel ((key, value) :: gathered)
        else
          closeBracket
          unexpected "`:`"

/-- The body counts lines even when the literal stands inside brackets. -/
def parseFunction : Nat → Parser Expr
  | 0 => outOfFuel
  | fuel + 1 => do
      let start ← span
      let nesting ← getNesting
      setNesting 0
      advance
      let params ← parseParamList fuel
      let body ← parseBlock fuel []
      let stop ← span
      let _ ← expectKeyword .end
      setNesting nesting
      let _ ← expectKeyword .function
      let id ← newId
      return .function (start.union stop) id params body

/-- Parameters in parentheses, or none. -/
def parseParamList : Nat → Parser (List Param)
  | 0 => outOfFuel
  | fuel + 1 => do
      if ← atSymbol .leftParen then
        openBracket
        advance
        let params ← parseParams fuel []
        closeBracket
        let _ ← expectSymbol .rightParen
        return params
      else return []

def parseParams : Nat → List Param → Parser (List Param)
  | 0, _ => outOfFuel
  | fuel + 1, gathered => do
      if ← atSymbol .rightParen then return gathered.reverse
      else
        let name ← expectName
        let default ← parseDefault fuel name.name
        let id ← newId
        afterItem .rightParen
        parseParams fuel (.mk id name default :: gathered)

/-- The default after a parameter's name; only a literal will do. -/
def parseDefault : Nat → String → Parser (Option Expr)
  | 0, _ => outOfFuel
  | fuel + 1, param => do
      if ← atSymbol .assign then
        advance
        let value ← parseUnary fuel
        if isLiteral value then return some value
        else
          closeBracket
          fail (.nonLiteralDefault param value.line)
      else return none

/-- Statements up to `end` or `else`, which stay. -/
def parseBlock : Nat → List Stmt → Parser (List Stmt)
  | 0, _ => outOfFuel
  | fuel + 1, gathered => do
      skipSeparators
      match ← kind with
      | .keyword .end => return gathered.reverse
      | .keyword .else => return gathered.reverse
      | .endOfFile => unexpected "`end`"
      | _ =>
          let stmt ← parseStmt fuel
          expectStatementEnd
          parseBlock fuel (stmt :: gathered)

def parseStmt : Nat → Parser Stmt
  | 0 => outOfFuel
  | fuel + 1 => do
      beginStatement
      match ← kind with
      | .keyword .if => parseIf fuel
      | .keyword .while =>
          let start ← expectKeyword .while
          let condition ← parseExpr fuel
          let body ← parseBlock fuel []
          expectEnd .while
          let id ← newId
          return .whileLoop id start condition body
      | .keyword .for =>
          let start ← expectKeyword .for
          let var ← expectName
          let _ ← expectKeyword .in
          let iter ← parseExpr fuel
          let body ← parseBlock fuel []
          expectEnd .for
          let id ← newId
          return .forLoop id start var iter body
      | .keyword .break =>
          let start ← span
          advance
          let id ← newId
          return .breakLoop id start
      | .keyword .continue =>
          let start ← span
          advance
          let id ← newId
          return .continueLoop id start
      | .keyword .return =>
          let start ← span
          advance
          if endsStatement (← kind) then
            let id ← newId
            return .returnValue id start none
          else
            let value ← parseExpr fuel
            let id ← newId
            return .returnValue id start (some value)
      | _ => parseSimple fuel

/-- An `if` on one line has one statement a branch and no `end`. -/
def parseIf : Nat → Parser Stmt
  | 0 => outOfFuel
  | fuel + 1 => do
      let start ← expectKeyword .if
      let condition ← parseExpr fuel
      let _ ← expectKeyword .then
      match ← kind with
      | .endOfLine => parseIfBlock fuel start condition
      | .endOfFile => parseIfBlock fuel start condition
      | _ =>
          let thenStmt ← parseStmt fuel
          if ← atKeyword .else then
            advance
            let elseStmt ← parseStmt fuel
            let id ← newId
            return .ifElse id start condition [thenStmt] (some [elseStmt])
          else
            let id ← newId
            return .ifElse id start condition [thenStmt] none

/-- The branches after `then`; an `else if` shares the one `end if` of the whole. -/
def parseIfBlock : Nat → Span → Expr → Parser Stmt
  | 0, _, _ => outOfFuel
  | fuel + 1, start, condition => do
      let thenBranch ← parseBlock fuel []
      if ← atKeyword .else then
        advance
        if ← atKeyword .if then
          let nestedStart ← span
          advance
          let nestedCondition ← parseExpr fuel
          let _ ← expectKeyword .then
          let nested ← parseIfBlock fuel nestedStart nestedCondition
          let id ← newId
          return .ifElse id start condition thenBranch (some [nested])
        else
          let elseBranch ← parseBlock fuel []
          expectEnd .if
          let id ← newId
          return .ifElse id start condition thenBranch (some elseBranch)
      else
        expectEnd .if
        let id ← newId
        return .ifElse id start condition thenBranch none

/-- An assignment, a call without parentheses, or an expression. -/
def parseSimple : Nat → Parser Stmt
  | 0 => outOfFuel
  | fuel + 1 => do
      match ← kind with
      | .name _ => parseFromTarget fuel
      | .keyword .self => parseFromTarget fuel
      | .keyword .super => parseFromTarget fuel
      | _ =>
          let value ← parseExpr fuel
          let id ← newId
          return .expr id value

/-- A statement that starts with something that may be assigned to or called. -/
def parseFromTarget : Nat → Parser Stmt
  | 0 => outOfFuel
  | fuel + 1 => do
      let target ← parsePostfix fuel
      match assignmentOf (← kind) with
      | some op =>
          if isTarget target then
            advance
            skipLineEnds
            let value ← parseExpr fuel
            let id ← newId
            return .assign id target op value
          else fail (.invalidAssignmentTarget target.line)
      | none =>
          if startsArgument (← currentToken) (← nextToken) && isTarget target then
            let first ← parseExpr fuel
            let args ← parseArguments fuel [first]
            let last := match args.getLast? with
              | some arg => arg.span
              | none => target.span
            let callId ← newId
            let id ← newId
            return .expr id (.call (target.span.union last) callId target args)
          else
            let base ← parsePowerRest fuel target
            let value ← parseBinaryRest fuel base orLevel
            let id ← newId
            return .expr id value

/-- Further arguments of a call without parentheses. -/
def parseArguments : Nat → List Expr → Parser (List Expr)
  | 0, _ => outOfFuel
  | fuel + 1, gathered => do
      if ← atSymbol .comma then
        advance
        skipLineEnds
        let arg ← parseExpr fuel
        parseArguments fuel (arg :: gathered)
      else return gathered.reverse

end

/-- Statements up to the end of the file, after those gathered in reverse. -/
def parseStatements : Nat → List Stmt → Parser (List Stmt)
  | 0, _ => outOfFuel
  | fuel + 1, gathered => do
      skipSeparators
      match ← kind with
      | .endOfFile => return gathered.reverse
      | .keyword .end => unexpected "statement"
      | .keyword .else => unexpected "statement"
      | _ =>
          let stmt ← parseStmt fuel
          expectStatementEnd
          parseStatements fuel (stmt :: gathered)

/-- More steps than parsing can nest: no more than sixteen from one token to the next. -/
def fuelFor (tokens : List Token) : Nat :=
  16 * (tokens.length + 1)

def start (token : Token) (ahead : List Token) : State where
  current := token
  ahead := ahead
  nesting := 0
  nextId := 1

/-- The reply to the tokens of a whole program. -/
def parseAll (token : Token) (ahead : List Token) : Reply (List Stmt) :=
  parseStatements (fuelFor (token :: ahead)) [] (start token ahead)

end Parser

namespace Program

/-- The statements that the tokens write. The tokens end with the end of the file. -/
def ofTokens (tokens : List Token) : Except ParseError (List Stmt) :=
  match tokens with
  | [] => .ok []
  | token :: ahead =>
      match Parser.parseAll token ahead with
      | .ok stmts _ => .ok stmts
      | .failed error _ => .error error
      | .exhausted => .error (.unexpectedToken "statement" token.kind token.span.line)

/-- The statements of a source text. -/
def parse (source : String) : Except ParseError (List Stmt) :=
  ofTokens (Token.lex source)

end Program

end MiniScript
