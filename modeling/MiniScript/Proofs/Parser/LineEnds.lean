import MiniScript.Proofs.Parser.Progress

/-!
# Line ends inside brackets

Every procedure of the parser keeps to the brackets that it opens: when it is done,
as many are open as before. So it tracks a companion that reads the same tokens with
more line ends inside the brackets. Only the test for the argument of a call looks at
two tokens at once; there the companion could see a line end that the parser does not
see, but not outside of brackets, where that test is made. For whole programs, line
ends inside brackets do not change the statements or the error.
-/

namespace MiniScript.Parser

variable {α β : Type} {extra : Nat → List Token} {record : List Nat} {before after : Nat}

namespace Task

/-- Statements are read outside of brackets only. -/
def Suits (nesting : Nat) : {category : Category} → Task category → Prop
  | .stmt, _ => nesting = 0
  | .stmts, _ => nesting = 0
  | _, _ => True

end Task

/-- Only at a minus sign does it matter which token is next. -/
theorem startsArgument_of_ne_minus {token : Token} (other : token.kind ≠ .symbol .minus)
    (next following : Option Token) :
    startsArgument token next = startsArgument token following := by
  unfold startsArgument
  split
  · rfl
  · rfl
  · rfl
  · rfl
  · split
    · rfl
    · rfl
    · rfl
    · rfl
    · contradiction
    · rfl
  · rfl

theorem head?_spread (position : Nat) (tokens : List Token) :
    (spread extra position tokens).head? = tokens.head? := by
  cases tokens <;> rfl

/-- Nothing has been put in after a token that is passed outside of brackets. -/
theorem Alongside.eq_nil_of_passed (harmless : Harmless extra record) {state other : State}
    (along : Alongside extra record state other) (outside : state.nesting = 0)
    (within : state.advance.passed <:+ record) : extra state.passed.length = [] := by
  cases more : state.ahead with
  | nil =>
      refine harmless.eq_nil_of_beyond ?_
      have room := along.room
      rw [more, List.length_nil, Nat.add_zero] at room
      exact room
  | cons token rest =>
      refine harmless.eq_nil_of_outside ?_
      have passed : state.step.passed = 0 :: state.passed := by
        rw [State.step_of_cons more, outside]
      rw [← passed]
      exact state.step_precedes_advance.passed.trans within

section

variable {state : State}

theorem parseUnary_of_minus (minus : state.kind = .symbol .minus) (fuel : Nat) :
    parseUnary (fuel + 1) state =
      (parseUnary fuel >>= unaryNode .neg state.span) state.advance := by
  obtain ⟨⟨_, _, _⟩, _, _, _, _, _⟩ := state
  cases minus
  rfl

theorem parseBinaryRest_of_minus (minus : state.kind = .symbol .minus) (fuel : Nat) (left : Expr)
    {level : Nat} (low : level ≤ sumLevel) :
    parseBinaryRest (fuel + 1) left level state =
      (do
        let right ← parseRightOperand fuel (sumLevel + 1)
        let id ← newId
        parseBinaryRest fuel (.binary left .sub state.span id right) level) state := by
  obtain ⟨⟨_, _, _⟩, _, _, _, _, _⟩ := state
  cases minus
  rw [parseBinaryRest]
  show (if sumLevel < level then _ else _ : Parser Expr) _ = _
  rw [if_neg (Nat.not_lt.2 low)]
  rfl

theorem parsePowerRest_of_minus (minus : state.kind = .symbol .minus) (fuel : Nat) (base : Expr) :
    parsePowerRest (fuel + 1) base state = .ok base state := by
  rw [parsePowerRest]
  show (if state.kind.isSymbol .caret = true then _ else _ : Parser Expr) state = _
  rw [minus]
  rfl

end

/-- Nothing is asked of the other parser when the record does not go on in that way. -/
theorem Reply.Steady.along_of_apart {start : State} {nesting : Nat} {reply other : Reply α}
    (steady : reply.Steady start nesting) (apart : ¬ start.passed <:+ record) :
    reply.Along extra record other := by
  cases reply with
  | ok value after => exact fun within => absurd (steady.1.passed.trans within) apart
  | failed error stopped => exact fun within => absurd (steady.passed.trans within) apart
  | exhausted => trivial

namespace Tracks

section

variable (harmless : Harmless extra record)
include harmless

theorem expectName : Tracks extra record before before Parser.expectName Parser.expectName := by
  unfold Parser.expectName
  refine kind.bind fun found => ?_
  split
  · exact span.bind fun _ => (advance harmless).bind fun _ => newId.bind fun _ => ofPure _
  · exact unexpected _

theorem expectMemberName :
    Tracks extra record before before Parser.expectMemberName Parser.expectMemberName := by
  unfold Parser.expectMemberName
  refine span.bind fun _ => kind.bind fun found => ?_
  split
  · exact (advance harmless).bind fun _ => newId.bind fun _ => ofPure _
  · exact (advance harmless).bind fun _ => newId.bind fun _ => ofPure _
  · exact unexpected _

theorem expectStatementEnd :
    Tracks extra record before before Parser.expectStatementEnd Parser.expectStatementEnd := by
  unfold Parser.expectStatementEnd
  refine kind.bind fun found => ?_
  split
  · exact advance harmless
  · exact advance harmless
  · exact ofPure _
  · exact unexpected _

theorem expectEnd (word : Keyword) :
    Tracks extra record before before (Parser.expectEnd word) (Parser.expectEnd word) :=
  (expectKeyword harmless .end).bind fun _ => (expectKeyword harmless word).bind fun _ => ofPure _

theorem afterItem (close : Symbol) :
    Tracks extra record before before (Parser.afterItem close) (Parser.afterItem close) := by
  unfold Parser.afterItem
  refine (atSymbol .comma).bind fun _ => ?_
  split
  · exact advance harmless
  · refine (atSymbol close).bind fun _ => ?_
    split
    · exact ofPure _
    · exact closeBracket.bind fun _ => unexpected _

end

theorem chainNode (first : Expr) (rest : List Expr) (ops : List (BinaryOp × Span)) :
    Tracks extra record before before (Parser.chainNode first rest ops)
      (Parser.chainNode first rest ops) := by
  unfold Parser.chainNode
  refine newId.bind fun _ => ?_
  split <;> exact ofPure _

theorem unaryNode (op : UnaryOp) (opSpan : Span) (operand : Expr) :
    Tracks extra record before before (Parser.unaryNode op opSpan operand)
      (Parser.unaryNode op opSpan operand) := by
  unfold Parser.unaryNode
  split
  · exact ofPure _
  · exact newId.bind fun _ => ofPure _

theorem outOfFuel : Tracks extra record before after (Parser.outOfFuel : Parser α) other where
  steady _ _ := trivial
  along _ _ _ _ := trivial

/-- Whether an argument starts here may depend on the token after the current one. It does so only
at a minus sign, and then both ways go on past that sign, outside of brackets. -/
theorem argumentOrNot (harmless : Harmless extra record) {yes yes' no no' : Parser α} {flag : Bool}
    (taken : Tracks extra record 0 0 yes yes') (left : Tracks extra record 0 0 no no')
    (passes : ∀ state, state.nesting = 0 → state.kind = .symbol .minus →
      (yes state).Steady state.advance 0 ∧ (no state).Steady state.advance 0) :
    Tracks extra record 0 0
      (do if startsArgument (← Parser.currentToken) (← nextToken) && flag then yes else no)
      (do if startsArgument (← Parser.currentToken) (← nextToken) && flag then yes' else no') where
  steady state opened := by
    show Reply.Steady state 0 ((if (startsArgument state.current state.ahead.head? && flag) = true
      then yes else no) state)
    split
    · exact taken.steady state opened
    · exact left.steady state opened
  along state companion opened along := by
    show Reply.Along extra record
      ((if (startsArgument state.current state.ahead.head? && flag) = true then yes else no) state)
      ((if (startsArgument companion.current companion.ahead.head? && flag) = true
        then yes' else no') companion)
    have chosen (same : startsArgument companion.current companion.ahead.head? =
        startsArgument state.current state.ahead.head?) :
        Reply.Along extra record
          ((if (startsArgument state.current state.ahead.head? && flag) = true
            then yes else no) state)
          ((if (startsArgument companion.current companion.ahead.head? && flag) = true
            then yes' else no') companion) := by
      rw [same]
      split
      · exact taken.along state companion opened along
      · exact left.along state companion opened along
    by_cases minus : state.kind = .symbol .minus
    · by_cases close : extra state.passed.length = []
      · refine chosen ?_
        rw [along.current, along.ahead, close, List.nil_append, head?_spread]
      · have past : Reply.Steady state.advance 0
            ((if (startsArgument state.current state.ahead.head? && flag) = true
              then yes else no) state) := by
          split
          · exact (passes state opened minus).1
          · exact (passes state opened minus).2
        exact past.along_of_apart fun within =>
          close (along.eq_nil_of_passed harmless opened within)
    · refine chosen ?_
      rw [along.current]
      exact startsArgument_of_ne_minus minus _ _

section

variable {fuel : Nat} {state : State}
variable (steady : ∀ few ≤ fuel, ∀ {category : Category} (task : Task category), task.Suits 0 →
  Tracks extra record 0 0 (task.run few) (task.run few))
include steady

theorem expr_steady_of_minus (opened : state.nesting = 0) (minus : state.kind = .symbol .minus) :
    (parseExpr fuel state).Steady state.advance 0 := by
  match fuel with
  | 0 => trivial
  | 1 => trivial
  | fuel + 2 =>
      rw [parseExpr]
      refine Reply.Steady.bind ?_ fun left =>
        (steady (fuel + 1) (by omega) (.binaryRest left orLevel) trivial).steady
      rw [parseUnary_of_minus minus]
      exact ((steady fuel (by omega) .unary trivial).bind fun _ => unaryNode _ _ _).steady _
        (state.advance_nesting.trans opened)

theorem binaryRest_steady_of_minus (harmless : Harmless extra record) (opened : state.nesting = 0)
    (minus : state.kind = .symbol .minus) (left : Expr) :
    (parseBinaryRest fuel left orLevel state).Steady state.advance 0 := by
  match fuel with
  | 0 => trivial
  | fuel + 1 =>
      rw [parseBinaryRest_of_minus minus _ left (by decide)]
      have operand : (parseRightOperand fuel (sumLevel + 1) state).Steady state.advance 0 := by
        cases fuel with
        | zero => trivial
        | succ fuel =>
            rw [parseRightOperand]
            exact ((skipLineEnds harmless).bind fun _ =>
              (steady fuel (by omega) .unary trivial).bind fun operand =>
                steady fuel (by omega) (.binaryRest operand (sumLevel + 1)) trivial).steady
              state.advance (state.advance_nesting.trans opened)
      exact operand.bind fun right => (newId.bind fun id =>
        steady fuel (by omega)
          (.binaryRest (.binary left .sub state.span id right) orLevel) trivial).steady

end

theorem tasks (harmless : Harmless extra record) {fuel larger : Nat} (more : fuel ≤ larger) :
    ∀ {before : Nat} {category : Category} (task : Task category), task.Suits before →
      Tracks extra record before before (task.run fuel) (task.run larger) := by
  induction fuel using Nat.strongRecOn generalizing larger with
  | ind fuel fewer =>
  intro before category task suits
  cases fuel with
  | zero =>
      rw [task.run_zero]
      exact outOfFuel
  | succ fuel =>
      obtain ⟨larger, rfl⟩ := Nat.exists_eq_add_of_lt more
      have ih := @fewer fuel (Nat.lt_succ_self _) (fuel + larger) (Nat.le_add_right _ _)
      cases task with
      | expr =>
          simp only [Task.run, parseExpr]
          exact (ih .unary trivial).bind fun left => ih (.binaryRest left orLevel) trivial
      | binaryRest left level =>
          simp only [Task.run, parseBinaryRest]
          refine kind.bind fun found => ?_
          split
          · exact ofPure _
          · rename_i strength operator _
            split
            · exact ofPure _
            · refine span.bind fun opSpan => ?_
              cases operator with
              | logic op =>
                  exact (ih (.rightOperand (strength + 1)) trivial).bind fun right =>
                    newId.bind fun id =>
                      ih (.binaryRest (.logic left op opSpan id right) level) trivial
              | binary op =>
                  dsimp only
                  split
                  · exact (ih (.chain left [] [] op opSpan) trivial).bind fun chain =>
                      ih (.binaryRest chain level) trivial
                  · exact (ih (.rightOperand (strength + 1)) trivial).bind fun right =>
                      newId.bind fun id =>
                        ih (.binaryRest (.binary left op opSpan id right) level) trivial
      | rightOperand level =>
          simp only [Task.run, parseRightOperand]
          exact (advance harmless).bind fun _ => (skipLineEnds harmless).bind fun _ =>
            (ih .unary trivial).bind fun operand => ih (.binaryRest operand level) trivial
      | chain first rest ops op opSpan =>
          simp only [Task.run, parseChain]
          refine (ih (.rightOperand sumLevel) trivial).bind fun operand => kind.bind fun found => ?_
          split
          · rename_i next _
            exact span.bind fun nextSpan =>
              ih (.chain first (operand :: rest) ((op, opSpan) :: ops) next nextSpan) trivial
          · exact chainNode _ _ _
      | unary =>
          simp only [Task.run, parseUnary]
          refine span.bind fun opSpan => kind.bind fun found => ?_
          split
          · exact (advance harmless).bind fun _ => (ih .unary trivial).bind fun operand =>
              (ih (.binaryRest operand comparisonLevel) trivial).bind fun _ => unaryNode _ _ _
          · exact (advance harmless).bind fun _ => (ih .unary trivial).bind fun _ => unaryNode _ _ _
          · exact (advance harmless).bind fun _ => (ih .unary trivial).bind fun _ => unaryNode _ _ _
          · exact ih .power trivial
      | power =>
          simp only [Task.run, parsePower]
          refine (atSymbol _).bind fun _ => ?_
          split
          · exact span.bind fun atSpan => (advance harmless).bind fun _ =>
              (ih .postfixed trivial).bind fun inner => newId.bind fun id =>
                ih (.powerRest (.reference (atSpan.union inner.span) id inner)) trivial
          · exact (ih .postfixed trivial).bind fun base => ih (.powerRest base) trivial
      | powerRest base =>
          simp only [Task.run, parsePowerRest]
          refine (atSymbol _).bind fun _ => ?_
          split
          · exact span.bind fun _ => (advance harmless).bind fun _ =>
              (skipLineEnds harmless).bind fun _ => (ih .unary trivial).bind fun _ =>
                newId.bind fun _ => ofPure _
          · exact ofPure _
      | postfixed =>
          simp only [Task.run, parsePostfix]
          exact (ih .primary trivial).bind fun primary => ih (.suffixes primary) trivial
      | suffixes base =>
          simp only [Task.run, parseSuffixes]
          refine currentToken.bind fun token => ?_
          split
          · exact (advance harmless).bind fun _ => (expectMemberName harmless).bind fun field =>
              newId.bind fun id => ih (.suffixes (.member base field id)) trivial
          · split
            · exact ofPure _
            · exact (ih (.indexOrSlice base) trivial).bind fun suffixed =>
                ih (.suffixes suffixed) trivial
          · split
            · exact ofPure _
            · exact openBracket.bind fun _ => (advance harmless).bind fun _ =>
                (ih (.items .rightParen []) trivial).bind fun args => closeBracket.bind fun _ =>
                  (expectSymbol harmless _).bind fun close => newId.bind fun id =>
                    ih (.suffixes (.call (base.span.union close) id base args)) trivial
          · exact ofPure _
      | items close gathered =>
          simp only [Task.run, parseItems]
          refine (atSymbol _).bind fun _ => ?_
          split
          · exact ofPure _
          · exact (ih .expr trivial).bind fun item => (afterItem harmless _).bind fun _ =>
              ih (.items close (item :: gathered)) trivial
      | optional stop =>
          simp only [Task.run, parseUnless]
          refine (atSymbol _).bind fun _ => ?_
          split
          · exact ofPure _
          · exact (ih .expr trivial).bind fun _ => ofPure _
      | indexOrSlice base =>
          simp only [Task.run, parseIndexOrSlice]
          refine span.bind fun _ => openBracket.bind fun _ => (advance harmless).bind fun _ =>
            (ih (.optional .colon) trivial).bind fun first => (atSymbol _).bind fun _ => ?_
          split
          · exact (advance harmless).bind fun _ =>
              (ih (.optional .rightBracket) trivial).bind fun _ => closeBracket.bind fun _ =>
                (expectSymbol harmless _).bind fun _ => newId.bind fun _ => ofPure _
          · refine closeBracket.bind fun _ => (expectSymbol harmless _).bind fun _ => ?_
            split
            · exact unexpected _
            · exact newId.bind fun _ => ofPure _
      | primary =>
          simp only [Task.run, parsePrimary]
          refine span.bind fun _ => kind.bind fun found => ?_
          split
          · exact (advance harmless).bind fun _ => newId.bind fun _ => ofPure _
          · exact (advance harmless).bind fun _ => newId.bind fun _ => ofPure _
          · exact (advance harmless).bind fun _ => newId.bind fun _ => ofPure _
          · split
            · exact (advance harmless).bind fun _ => newId.bind fun _ => ofPure _
            · exact (advance harmless).bind fun _ => newId.bind fun _ => ofPure _
            · exact (advance harmless).bind fun _ => newId.bind fun _ => ofPure _
            · exact (advance harmless).bind fun _ => newId.bind fun _ => ofPure _
            · exact (advance harmless).bind fun _ => newId.bind fun _ => ofPure _
            · exact ih .function trivial
            · exact unexpected _
          · split
            · exact openBracket.bind fun _ => (advance harmless).bind fun _ =>
                (ih .expr trivial).bind fun _ => closeBracket.bind fun _ =>
                  (expectSymbol harmless _).bind fun _ => newId.bind fun _ => ofPure _
            · exact openBracket.bind fun _ => (advance harmless).bind fun _ =>
                (ih (.items .rightBracket []) trivial).bind fun _ => closeBracket.bind fun _ =>
                  (expectSymbol harmless _).bind fun _ => newId.bind fun _ => ofPure _
            · exact openBracket.bind fun _ => (advance harmless).bind fun _ =>
                (ih (.entries []) trivial).bind fun _ => closeBracket.bind fun _ =>
                  (expectSymbol harmless _).bind fun _ => newId.bind fun _ => ofPure _
            · exact unexpected _
          · exact unexpected _
      | entries gathered =>
          simp only [Task.run, parseEntries]
          refine (atSymbol _).bind fun _ => ?_
          split
          · exact ofPure _
          · refine (ih .expr trivial).bind fun key => (atSymbol _).bind fun _ => ?_
            split
            · exact (advance harmless).bind fun _ => (ih .expr trivial).bind fun value =>
                (afterItem harmless _).bind fun _ =>
                  ih (.entries ((key, value) :: gathered)) trivial
            · exact closeBracket.bind fun _ => unexpected _
      | function =>
          simp only [Task.run, parseFunction]
          refine span.bind fun _ => getNesting ?_
          exact (setNesting 0).bind fun _ => (advance harmless).bind fun _ =>
            (ih .paramList trivial).bind fun _ => (ih (.block []) rfl).bind fun _ =>
              span.bind fun _ => (expectKeyword harmless _).bind fun _ =>
                (setNesting before).bind fun _ => (expectKeyword harmless _).bind fun _ =>
                  newId.bind fun _ => ofPure _
      | paramList =>
          simp only [Task.run, parseParamList]
          refine (atSymbol _).bind fun _ => ?_
          split
          · exact openBracket.bind fun _ => (advance harmless).bind fun _ =>
              (ih (.params []) trivial).bind fun _ => closeBracket.bind fun _ =>
                (expectSymbol harmless _).bind fun _ => ofPure _
          · exact ofPure _
      | params gathered =>
          simp only [Task.run, parseParams]
          refine (atSymbol _).bind fun _ => ?_
          split
          · exact ofPure _
          · exact (expectName harmless).bind fun name =>
              (ih (.default name.name) trivial).bind fun default => newId.bind fun id =>
                (afterItem harmless _).bind fun _ =>
                  ih (.params (.mk id name default :: gathered)) trivial
      | default param =>
          simp only [Task.run, parseDefault]
          refine (atSymbol _).bind fun _ => ?_
          split
          · refine (advance harmless).bind fun _ => (ih .unary trivial).bind fun value => ?_
            split
            · exact ofPure _
            · exact closeBracket.bind fun _ => fail _
          · exact ofPure _
      | block gathered =>
          simp only [Task.run, parseBlock]
          refine (skipSeparators harmless).bind fun _ => kind.bind fun found => ?_
          split
          · exact ofPure _
          · exact ofPure _
          · exact unexpected _
          · exact (ih .stmt suits).bind fun stmt => (expectStatementEnd harmless).bind fun _ =>
              ih (.block (stmt :: gathered)) suits
      | stmt =>
          obtain rfl : before = 0 := suits
          simp only [Task.run, parseStmt]
          refine beginStatement.bind fun _ => kind.bind fun found => ?_
          split
          · exact ih .conditional rfl
          · exact (expectKeyword harmless _).bind fun _ => (ih .expr trivial).bind fun _ =>
              (ih (.block []) rfl).bind fun _ => (expectEnd harmless _).bind fun _ =>
                newId.bind fun _ => ofPure _
          · exact (expectKeyword harmless _).bind fun _ => (expectName harmless).bind fun _ =>
              (expectKeyword harmless _).bind fun _ => (ih .expr trivial).bind fun _ =>
                (ih (.block []) rfl).bind fun _ => (expectEnd harmless _).bind fun _ =>
                  newId.bind fun _ => ofPure _
          · exact span.bind fun _ => (advance harmless).bind fun _ => newId.bind fun _ => ofPure _
          · exact span.bind fun _ => (advance harmless).bind fun _ => newId.bind fun _ => ofPure _
          · refine span.bind fun _ => (advance harmless).bind fun _ => kind.bind fun _ => ?_
            split
            · exact newId.bind fun _ => ofPure _
            · exact (ih .expr trivial).bind fun _ => newId.bind fun _ => ofPure _
          · exact ih .simple rfl
      | conditional =>
          simp only [Task.run, parseIf]
          refine (expectKeyword harmless _).bind fun start =>
            (ih .expr trivial).bind fun condition =>
            (expectKeyword harmless _).bind fun _ => kind.bind fun found => ?_
          split
          · exact ih (.ifBlock start condition) suits
          · exact ih (.ifBlock start condition) suits
          · refine (ih .stmt suits).bind fun _ => (atKeyword _).bind fun _ => ?_
            split
            · exact (advance harmless).bind fun _ => (ih .stmt suits).bind fun _ =>
                newId.bind fun _ => ofPure _
            · exact newId.bind fun _ => ofPure _
      | ifBlock start condition =>
          simp only [Task.run, parseIfBlock]
          refine (ih (.block []) suits).bind fun _ => (atKeyword _).bind fun _ => ?_
          split
          · refine (advance harmless).bind fun _ => (atKeyword _).bind fun _ => ?_
            split
            · exact span.bind fun nestedStart => (advance harmless).bind fun _ =>
                (ih .expr trivial).bind fun nestedCondition =>
                  (expectKeyword harmless _).bind fun _ =>
                    (ih (.ifBlock nestedStart nestedCondition) suits).bind fun _ =>
                      newId.bind fun _ => ofPure _
            · exact (ih (.block []) suits).bind fun _ => (expectEnd harmless _).bind fun _ =>
                newId.bind fun _ => ofPure _
          · exact (expectEnd harmless _).bind fun _ => newId.bind fun _ => ofPure _
      | simple =>
          simp only [Task.run, parseSimple]
          refine kind.bind fun found => ?_
          split
          · exact ih .fromTarget suits
          · exact ih .fromTarget suits
          · exact ih .fromTarget suits
          · exact (ih .expr trivial).bind fun _ => newId.bind fun _ => ofPure _
      | fromTarget =>
          simp only [Task.run, parseFromTarget]
          refine (ih .postfixed trivial).bind fun target => kind.bind fun found => ?_
          split
          · split
            · exact (advance harmless).bind fun _ => (skipLineEnds harmless).bind fun _ =>
                (ih .expr trivial).bind fun _ => newId.bind fun _ => ofPure _
            · exact fail _
          · obtain rfl : before = 0 := suits
            refine argumentOrNot harmless ?_ ?_ ?_
            · exact (ih .expr trivial).bind fun first =>
                (ih (.arguments [first]) trivial).bind fun _ => newId.bind fun _ =>
                  newId.bind fun _ => ofPure _
            · exact (ih (.powerRest target) trivial).bind fun base =>
                (ih (.binaryRest base orLevel) trivial).bind fun _ => newId.bind fun _ => ofPure _
            · intro state opened minus
              have steady : ∀ few ≤ fuel, ∀ {category} (task : Task category), task.Suits 0 →
                  Tracks extra record 0 0 (task.run few) (task.run few) := fun few most _ task =>
                fewer few (Nat.lt_succ_of_le most) (Nat.le_refl _) task
              refine ⟨?_, ?_⟩
              · refine (expr_steady_of_minus steady opened minus).bind fun first => ?_
                exact ((ih (.arguments [first]) trivial).bind fun _ => newId.bind fun _ =>
                  newId.bind fun _ => ofPure _).steady
              · cases fuel with
                | zero => trivial
                | succ fuel =>
                    rw [bind_ok (parsePowerRest_of_minus minus fuel target)]
                    have ends (value : Expr) : Tracks extra record 0 0 _ _ :=
                      newId.bind fun id => ofPure (Stmt.expr id value)
                    exact (binaryRest_steady_of_minus steady harmless opened minus target).bind
                      fun value => (ends value).steady
      | arguments gathered =>
          simp only [Task.run, parseArguments]
          refine (atSymbol _).bind fun _ => ?_
          split
          · exact (advance harmless).bind fun _ => (skipLineEnds harmless).bind fun _ =>
              (ih .expr trivial).bind fun arg => ih (.arguments (arg :: gathered)) trivial
          · exact ofPure _
      | statements gathered =>
          simp only [Task.run, parseStatements]
          refine (skipSeparators harmless).bind fun _ => kind.bind fun found => ?_
          split
          · exact ofPure _
          · exact unexpected _
          · exact unexpected _
          · exact (ih .stmt suits).bind fun stmt => (expectStatementEnd harmless).bind fun _ =>
              ih (.statements (stmt :: gathered)) suits

end Tracks

theorem spread_length (extra : Nat → List Token) (position : Nat) (tokens : List Token) :
    tokens.length ≤ (spread extra position tokens).length := by
  induction tokens generalizing position with
  | nil => exact Nat.le_refl _
  | cons token rest ih =>
      have := ih (position + 1)
      rw [spread, List.length_cons, List.length_cons, List.length_append]
      omega

/-- How many brackets were open at each token that was passed, the latest first. -/
def Reply.trail : Reply α → List Nat
  | .ok _ after => after.passed
  | .failed _ stopped => stopped.passed
  | .exhausted => []

/-- No more tokens are passed than there are ahead. -/
theorem parseAll_trail_length (token : Token) (ahead : List Token) :
    (parseAll token ahead).trail.length ≤ ahead.length := by
  have nothing : Harmless (fun _ => []) [] := ⟨fun _ _ => nofun, fun _ put => absurd rfl put⟩
  have steady := (Tracks.tasks nothing (Nat.le_refl (fuelFor (token :: ahead))) (.statements [])
    rfl).steady (start token ahead) rfl
  change (parseAll token ahead).Steady _ 0 at steady
  cases reply : parseAll token ahead with
  | ok value after =>
      rw [reply] at steady
      have count : after.passed.length + after.ahead.length = 0 + ahead.length := steady.1.count
      show after.passed.length ≤ ahead.length
      omega
  | failed error stopped =>
      rw [reply] at steady
      have count : stopped.passed.length + stopped.ahead.length = 0 + ahead.length := steady.count
      show stopped.passed.length ≤ ahead.length
      omega
  | exhausted => exact Nat.zero_le _

theorem parseAll_ne_exhausted {token : Token} {ahead : List Token}
    (ended : (start token ahead).Ended) : parseAll token ahead ≠ .exhausted := by
  intro exhausted
  have enough : 16 * ahead.length + (Task.statements []).rank ≤ fuelFor (token :: ahead) := by
    show 16 * ahead.length + 9 ≤ 16 * (ahead.length + 1 + 1)
    omega
  have meets : (parseAll token ahead).Meets _ :=
    Task.progress (.statements []) enough (start token ahead) ⟨ended, Nat.le_refl _⟩ trivial
  rw [exhausted] at meets
  exact meets

end Parser

namespace Program

/-- How many brackets are open at each token when the parser passes it. The parser may stop before
it has passed all of them. -/
def nestings : List Token → List Nat
  | [] => []
  | token :: ahead => (Parser.parseAll token ahead).trail.reverse

/-- Line ends may be put in after every token that is passed inside brackets. -/
theorem ofTokens_spread {tokens : List Token} {extra : Nat → List Token}
    (ended : ∃ front final, tokens = front ++ [final] ∧ final.kind = .endOfFile)
    (lineEnds : ∀ position, ∀ token ∈ extra position, token.kind = .endOfLine)
    (inside : ∀ position, extra position ≠ [] →
      ∃ nesting, (nestings tokens)[position]? = some nesting ∧ 0 < nesting) :
    ofTokens (Parser.spread extra 0 tokens) = ofTokens tokens := by
  cases tokens with
  | nil => rfl
  | cons token ahead =>
      have harmless : Parser.Harmless extra (Parser.parseAll token ahead).trail :=
        ⟨lineEnds, inside⟩
      have room := Parser.parseAll_trail_length token ahead
      have along : (Parser.parseAll token ahead).Along extra (Parser.parseAll token ahead).trail
          (Parser.parseAll token (extra 0 ++ Parser.spread extra 1 ahead)) := by
        refine (Parser.Tracks.tasks harmless ?_ (.statements []) rfl).along
          (Parser.start token ahead) (Parser.start token _) rfl ⟨rfl, rfl, rfl, rfl, ?_⟩
        · exact Nat.mul_le_mul_left 16
            (Nat.succ_le_succ (Parser.spread_length extra 0 (token :: ahead)))
        · show _ ≤ 0 + ahead.length
          omega
      have finished : Parser.parseAll token ahead ≠ .exhausted := by
        refine Parser.parseAll_ne_exhausted ?_
        obtain ⟨front, final, parts, atEnd⟩ := ended
        have last : (token :: ahead).getLast? = some final := by
          rw [parts, List.getLast?_concat]
        rw [List.getLast?_cons, Option.some.injEq] at last
        rw [Parser.State.Ended, List.getLastD_eq_getLast?]
        exact (congrArg Token.kind last).trans atEnd
      rw [Parser.spread, ofTokens, ofTokens]
      cases reply : Parser.parseAll token ahead with
      | ok stmts after =>
          rw [reply] at along
          obtain ⟨last, replied, _⟩ := along List.suffix_rfl
          rw [replied]
      | failed error stopped =>
          rw [reply] at along
          obtain ⟨last, replied⟩ := along List.suffix_rfl
          rw [replied]
      | exhausted => exact absurd reply finished

/-- In `["a", "b"]` line ends are put in after the opening bracket and after the comma. -/
theorem ofTokens_spread_list :
    let token (kind : Token.Kind) : Token := ⟨kind, ⟨0, 1, 1⟩, false⟩
    let tokens := [token (.symbol .leftBracket), token (.text "a"), token (.symbol .comma),
      token (.text "b"), token (.symbol .rightBracket), token .endOfFile]
    let extra : Nat → List Token := fun position =>
      if position = 0 then [token .endOfLine, token .endOfLine]
      else if position = 2 then [token .endOfLine] else []
    nestings tokens = [1, 1, 1, 1, 0] ∧ (Parser.spread extra 0 tokens).length = 9 ∧
      ofTokens (Parser.spread extra 0 tokens) = ofTokens tokens := by
  intro token tokens extra
  have nesting : nestings tokens = [1, 1, 1, 1, 0] := by decide +kernel
  refine ⟨nesting, rfl, ofTokens_spread ⟨tokens.take 5, token .endOfFile, rfl, rfl⟩ ?_ ?_⟩
  · intro position found
    simp only [extra]
    split
    · simp +contextual [token]
    · split <;> simp +contextual [token]
  · intro position put
    rw [nesting]
    have inside : position = 0 ∨ position = 2 := by
      by_contra other
      rw [not_or] at other
      exact put (by simp only [extra, if_neg other.1, if_neg other.2])
    rcases inside with rfl | rfl
    · exact ⟨1, rfl, Nat.one_pos⟩
    · exact ⟨1, rfl, Nat.one_pos⟩

end Program

end MiniScript
