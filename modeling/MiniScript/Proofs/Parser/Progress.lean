import MiniScript.Proofs.Parser.Tracking

/-!
# Parsing comes to an end

Before the end of the file every loop of the parser passes a token, so the steps
that a task can nest are bounded by the tokens that are left. A task of a certain
rank hands the same tokens only to tasks of a lower rank; behind a token that has
been passed the ranks start afresh. This is why sixteen steps for each token are
enough.
-/

namespace MiniScript.Parser

variable {α β : Type}

namespace State

/-- The last token is the end of the file. -/
def Ended (state : State) : Prop :=
  (state.ahead.getLastD state.current).kind = .endOfFile

/-- At least `count` of `total` tokens have been passed, and the end of the file has not. -/
structure Past (count total : Nat) (state : State) : Prop where
  ended : state.Ended
  room : state.ahead.length + count ≤ total

theorem Ended.step {state : State} (ended : state.Ended) : state.step.Ended := by
  cases more : state.ahead with
  | nil => rw [step_of_nil more]; exact ended
  | cons token rest =>
      rw [Ended, more, List.getLastD_cons] at ended
      rw [step_of_cons more]
      exact ended

theorem Ended.ahead_ne_nil {state : State} (ended : state.Ended)
    (other : state.kind ≠ .endOfFile) : state.ahead ≠ [] := by
  intro none
  rw [Ended, none] at ended
  exact other ended

namespace Past

variable {count total : Nat} {state : State}

theorem step (past : state.Past count total) : state.step.Past count total where
  ended := past.ended.step
  room := by
    rw [step_ahead_length]
    have := past.room
    omega

theorem skip (past : state.Past count total) (skipped : Token.Kind → Bool) :
    (state.skip skipped).Past count total :=
  skip_induction (motive := fun state final => state.Past count total → final.Past count total)
    skipped (fun _ past => past) (fun _ _ _ rest past => rest past.step) state past

theorem skipLineEnds (past : state.Past count total) : state.skipLineEnds.Past count total :=
  past.skip _

theorem advance (past : state.Past count total) : state.advance.Past count total := by
  unfold State.advance
  split
  · exact past.step.skipLineEnds
  · exact past.step

/-- A token that is not the end of the file counts when it is passed. -/
theorem further (past : state.Past count total) (other : state.kind ≠ .endOfFile) :
    state.advance.Past (count + 1) total := by
  have step : state.step.Past (count + 1) total := by
    refine ⟨past.ended.step, ?_⟩
    have some := List.length_pos_iff.2 (past.ended.ahead_ne_nil other)
    have room := past.room
    rw [step_ahead_length]
    omega
  unfold State.advance
  split
  · exact step.skipLineEnds
  · exact step

theorem weaken (past : state.Past count total) {fewer : Nat} (less : fewer ≤ count) :
    state.Past fewer total :=
  ⟨past.ended, Nat.le_trans (Nat.add_le_add_left less _) past.room⟩

end Past

end State

/-- The steps were enough, and a result leaves a good state behind. -/
def Reply.Meets (good : State → Prop) : Reply α → Prop
  | .ok _ after => good after
  | .failed _ _ => True
  | .exhausted => False

namespace Reply.Meets

variable {parser : Parser α} {next : α → Parser β} {state : State} {good final : State → Prop}

theorem bind (first : (parser state).Meets good)
    (rest : ∀ value between, good between → (next value between).Meets final) :
    ((parser >>= next) state).Meets final := by
  show (andThen parser next state).Meets final
  unfold andThen
  cases reply : parser state with
  | ok value between =>
      rw [reply] at first
      exact rest value between first
  | failed error stopped => trivial
  | exhausted =>
      rw [reply] at first
      exact first.elim

/-- What has been seen is known of the state. -/
theorem look {look : State → α} (rest : ∀ seen, look state = seen → (next seen state).Meets final) :
    (((fun state => .ok (look state) state : Parser α) >>= next) state).Meets final :=
  rest _ rfl

theorem move {move : State → State} {look : State → α}
    (rest : (next (look state) (move state)).Meets final) :
    (((fun state => .ok (look state) (move state) : Parser α) >>= next) state).Meets final :=
  rest

theorem mono {reply : Reply α} (meets : reply.Meets good)
    (better : ∀ state, good state → final state) : reply.Meets final := by
  cases reply with
  | ok value after => exact better after meets
  | failed error stopped => trivial
  | exhausted => exact meets.elim

end Reply.Meets

/-- A parser that has steps enough and stays past what has been passed. -/
def Keeps (count total : Nat) (parser : Parser α) : Prop :=
  ∀ state, state.Past count total → (parser state).Meets (State.Past count total)

/-- A parser that passes one more token. -/
def Passes (count total : Nat) (parser : Parser α) : Prop :=
  ∀ state, state.Past count total → (parser state).Meets (State.Past (count + 1) total)

namespace Keeps

variable {count total : Nat} {parser : Parser α} {next : α → Parser β}

theorem bind (first : Keeps count total parser) (rest : ∀ value, Keeps count total (next value)) :
    Keeps count total (parser >>= next) :=
  fun state past => (first state past).bind rest

theorem ofPure (value : α) : Keeps count total (pure value : Parser α) :=
  fun _ past => past

theorem move {look : State → α} {move : State → State}
    (kept : ∀ state, state.Past count total → (move state).Past count total) :
    Keeps count total (fun state => .ok (look state) (move state) : Parser α) :=
  kept

theorem kind : Keeps count total Parser.kind := move fun _ past => past

theorem span : Keeps count total Parser.span := move fun _ past => past

theorem currentToken : Keeps count total Parser.currentToken := move fun _ past => past

theorem nextToken : Keeps count total Parser.nextToken := move fun _ past => past

theorem atSymbol (mark : Symbol) : Keeps count total (Parser.atSymbol mark) :=
  move fun _ past => past

theorem atKeyword (word : Keyword) : Keeps count total (Parser.atKeyword word) :=
  move fun _ past => past

theorem newId : Keeps count total Parser.newId := move fun _ past => ⟨past.ended, past.room⟩

theorem openBracket : Keeps count total Parser.openBracket :=
  move fun _ past => ⟨past.ended, past.room⟩

theorem closeBracket : Keeps count total Parser.closeBracket :=
  move fun _ past => ⟨past.ended, past.room⟩

theorem setNesting (nesting : Nat) : Keeps count total (Parser.setNesting nesting) :=
  move fun _ past => ⟨past.ended, past.room⟩

theorem beginStatement : Keeps count total Parser.beginStatement :=
  move fun _ past => ⟨past.ended, past.room⟩

theorem advance : Keeps count total Parser.advance := move fun _ past => past.advance

theorem skipLineEnds : Keeps count total Parser.skipLineEnds := move fun _ past => past.skip _

theorem skipSeparators : Keeps count total Parser.skipSeparators := move fun _ past => past.skip _

theorem fail (error : ParseError) : Keeps count total (Parser.fail error : Parser α) :=
  fun _ _ => trivial

theorem unexpected (expected : String) :
    Keeps count total (Parser.unexpected expected : Parser α) := by
  intro state _
  unfold Parser.unexpected
  split <;> trivial

end Keeps

namespace Passes

variable {count total : Nat} {parser : Parser α} {next : α → Parser β}

theorem keeps (passes : Passes count total parser) : Keeps count total parser :=
  fun state past => (passes state past).mono fun _ further => further.weaken (Nat.le_succ _)

/-- What follows need only keep to what has been passed. -/
theorem bind (first : Passes count total parser)
    (rest : ∀ value, Keeps (count + 1) total (next value)) :
    Passes count total (parser >>= next) :=
  fun state past => (first state past).bind rest

theorem bindLater (first : Keeps count total parser)
    (rest : ∀ value, Passes count total (next value)) : Passes count total (parser >>= next) :=
  fun state past => (first state past).bind rest

/-- Expecting a token that is not the end of the file. -/
theorem expect {wanted : Token.Kind → Bool} (other : wanted .endOfFile = false)
    (expected : String) :
    Passes count total (fun state => if wanted state.kind then .ok state.span state.advance
      else Parser.unexpected expected state) := by
  intro state past
  dsimp only
  split
  · rename_i found
    refine past.further fun atEnd => ?_
    rw [atEnd, other] at found
    cases found
  · unfold Parser.unexpected
    split <;> trivial

theorem expectSymbol (mark : Symbol) : Passes count total (Parser.expectSymbol mark) :=
  expect rfl _

theorem expectKeyword (word : Keyword) : Passes count total (Parser.expectKeyword word) :=
  expect rfl _

theorem unexpected (expected : String) :
    Passes count total (Parser.unexpected expected : Parser α) := by
  intro state _
  unfold Parser.unexpected
  split <;> trivial

end Passes

section

variable {count total : Nat}

theorem expectName_passes : Passes count total expectName := by
  intro state past
  unfold expectName
  refine Reply.Meets.look fun found seen => ?_
  split
  · refine Reply.Meets.look fun span _ => Reply.Meets.move ?_
    exact (Keeps.newId.bind fun _ => .ofPure _) _ (past.further (by rw [seen]; nofun))
  · exact Passes.unexpected _ state past

theorem expectMemberName_passes : Passes count total expectMemberName := by
  intro state past
  unfold expectMemberName
  refine Reply.Meets.look fun span _ => Reply.Meets.look fun found seen => ?_
  split
  · refine Reply.Meets.move ?_
    exact (Keeps.newId.bind fun _ => .ofPure _) _ (past.further (by rw [seen]; nofun))
  · refine Reply.Meets.move ?_
    exact (Keeps.newId.bind fun _ => .ofPure _) _ (past.further (by rw [seen]; nofun))
  · exact Passes.unexpected _ state past

theorem expectStatementEnd_keeps : Keeps count total expectStatementEnd := by
  unfold expectStatementEnd
  refine Keeps.kind.bind fun found => ?_
  split
  · exact .advance
  · exact .advance
  · exact .ofPure _
  · exact .unexpected _

theorem expectEnd_passes (word : Keyword) : Passes count total (expectEnd word) :=
  (Passes.expectKeyword .end).bind fun _ =>
    (Passes.expectKeyword word).keeps.bind fun _ => .ofPure _

theorem expectEnd_keeps (word : Keyword) : Keeps count total (expectEnd word) :=
  (expectEnd_passes word).keeps

theorem afterItem_keeps (close : Symbol) : Keeps count total (afterItem close) := by
  unfold afterItem
  refine (Keeps.atSymbol .comma).bind fun _ => ?_
  split
  · exact .advance
  · refine (Keeps.atSymbol close).bind fun _ => ?_
    split
    · exact .ofPure _
    · exact Keeps.closeBracket.bind fun _ => .unexpected _

theorem chainNode_keeps (first : Expr) (rest : List Expr) (ops : List (BinaryOp × Span)) :
    Keeps count total (chainNode first rest ops) := by
  unfold chainNode
  refine Keeps.newId.bind fun _ => ?_
  split <;> exact .ofPure _

theorem unaryNode_keeps (op : UnaryOp) (opSpan : Span) (operand : Expr) :
    Keeps count total (unaryNode op opSpan operand) := by
  unfold unaryNode
  split
  · exact .ofPure _
  · exact Keeps.newId.bind fun _ => .ofPure _

end

namespace Task

/-- Tasks that are handed the same tokens have a lower rank. -/
def rank : {category : Category} → Task category → Nat
  | _, .function | _, .params _ | _, .conditional => 1
  | _, .primary | _, .paramList => 2
  | _, .postfixed => 3
  | _, .power | _, .fromTarget => 4
  | _, .unary => 5
  | _, .expr | _, .rightOperand _ | _, .powerRest _ | _, .default _ => 6
  | _, .chain .. | _, .items .. | _, .optional _ | _, .entries _ | _, .arguments _
  | _, .simple => 7
  | _, .binaryRest .. | _, .indexOrSlice _ | _, .stmt => 8
  | _, .suffixes _ | _, .block _ | _, .statements _ => 9
  | _, .ifBlock .. => 10

/-- How many tokens must have been passed for a result. -/
def least : {category : Category} → Task category → Nat
  | _, .expr | _, .rightOperand _ | _, .chain .. | _, .unary | _, .power | _, .postfixed
  | _, .indexOrSlice _ | _, .primary | _, .function
  | _, .stmt | _, .conditional | _, .ifBlock .. | _, .simple | _, .fromTarget => 1
  | _, _ => 0

/-- A function literal is read only at its keyword. -/
def Ready (state : State) : {category : Category} → Task category → Prop
  | _, .function => state.kind ≠ .endOfFile
  | _, _ => True

theorem rank_pos {category : Category} (task : Task category) : 0 < task.rank := by
  cases task <;> simp [rank]

theorem rank_lt {category : Category} (task : Task category) : task.rank < 16 := by
  cases task <;> simp [rank]

/-- With sixteen steps for each token that is left, a task has steps enough. -/
theorem progress {fuel : Nat} : ∀ {total : Nat} {category : Category} (task : Task category),
    16 * total + task.rank ≤ fuel → ∀ state, state.Past 0 total → task.Ready state →
      (task.run fuel state).Meets (State.Past task.least total) := by
  induction fuel with
  | zero =>
      intro total category task enough
      have := task.rank_pos
      omega
  | succ fuel ih =>
      intro total category task enough state past ready
      -- The same tokens go to tasks of a lower rank only, fewer tokens to any task.
      have here {category : Category} (other : Task category) (lower : other.rank < task.rank)
          (ready : ∀ state, other.Ready state) (state : State) (past : state.Past 0 total) :
          (other.run fuel state).Meets (State.Past other.least total) :=
        ih other (by omega) state past (ready state)
      have later {category : Category} (other : Task category)
          (ready : ∀ state, other.Ready state) : Keeps 1 total (other.run fuel) := by
        intro state past
        have room := past.room
        have := other.rank_lt
        have := task.rank_pos
        have left : state.Past 0 (total - 1) := ⟨past.ended, by omega⟩
        refine (ih other (by omega) state left (ready state)).mono fun after rest =>
          ⟨rest.ended, ?_⟩
        have := rest.room
        omega
      cases task with
      | expr =>
          simp only [Task.run, parseExpr]
          exact Passes.bind (here .unary (by simp [rank]) fun _ => trivial)
            (fun left => later (.binaryRest left orLevel) fun _ => trivial) state past
      | binaryRest left level =>
          simp only [Task.run, parseBinaryRest]
          refine (Keeps.kind.bind fun found => ?_) state past
          split
          · exact .ofPure _
          · rename_i strength operator _
            split
            · exact .ofPure _
            · refine Keeps.span.bind fun opSpan => ?_
              have operand := here (.rightOperand (strength + 1)) (by simp [rank])
                (fun _ => by trivial)
              cases operator with
              | logic op =>
                  exact Passes.keeps (.bind operand fun right => Keeps.newId.bind fun id =>
                    later (.binaryRest (.logic left op opSpan id right) level) fun _ => trivial)
              | binary op =>
                  dsimp only
                  split
                  · exact Passes.keeps (.bind
                      (here (.chain left [] [] op opSpan) (by simp [rank]) fun _ => trivial)
                      fun chain => later (.binaryRest chain level) fun _ => trivial)
                  · exact Passes.keeps (.bind operand fun right => Keeps.newId.bind fun id =>
                      later (.binaryRest (.binary left op opSpan id right) level) fun _ => trivial)
      | rightOperand level =>
          simp only [Task.run, parseRightOperand]
          exact Passes.bindLater .advance (fun _ => .bindLater .skipLineEnds fun _ =>
            .bind (here .unary (by simp [rank]) fun _ => trivial) fun operand =>
              later (.binaryRest operand level) fun _ => trivial) state past
      | chain first rest ops op opSpan =>
          simp only [Task.run, parseChain]
          refine Passes.bind (here (.rightOperand sumLevel) (by simp [rank]) fun _ => trivial)
            (fun operand => Keeps.kind.bind fun found => ?_) state past
          split
          · rename_i next _
            exact Keeps.span.bind fun nextSpan =>
              later (.chain first (operand :: rest) ((op, opSpan) :: ops) next nextSpan)
                fun _ => trivial
          · exact chainNode_keeps _ _ _
      | unary =>
          simp only [Task.run, parseUnary]
          refine .look fun opSpan _ => .look fun found seen => ?_
          split
          · refine .move ((Keeps.bind (later .unary fun _ => trivial) fun operand =>
              .bind (later (.binaryRest operand comparisonLevel) fun _ => trivial) fun _ =>
                unaryNode_keeps _ _ _) _ (past.further ?_))
            rw [seen]
            nofun
          · refine .move ((Keeps.bind (later .unary fun _ => trivial) fun _ =>
              unaryNode_keeps _ _ _) _ (past.further ?_))
            rw [seen]
            nofun
          · refine .move ((Keeps.bind (later .unary fun _ => trivial) fun _ =>
              unaryNode_keeps _ _ _) _ (past.further ?_))
            rw [seen]
            nofun
          · exact here .power (by simp [rank]) (fun _ => trivial) state past
      | power =>
          simp only [Task.run, parsePower]
          have inner := here .postfixed (by simp [rank]) fun _ => trivial
          refine Passes.bindLater (.atSymbol _) (fun _ => ?_) state past
          split
          · exact .bindLater .span fun atSpan => .bindLater .advance fun _ =>
              .bind inner fun inner => Keeps.newId.bind fun id =>
                later (.powerRest (.reference (atSpan.union inner.span) id inner)) fun _ => trivial
          · exact .bind inner fun base => later (.powerRest base) fun _ => trivial
      | powerRest base =>
          simp only [Task.run, parsePowerRest]
          refine ((Keeps.atSymbol _).bind fun _ => ?_) state past
          split
          · exact Keeps.span.bind fun _ => Keeps.advance.bind fun _ =>
              Keeps.skipLineEnds.bind fun _ =>
                Passes.keeps (.bind (here .unary (by simp [rank]) fun _ => trivial) fun _ =>
                  Keeps.newId.bind fun _ => .ofPure _)
          · exact .ofPure _
      | postfixed =>
          simp only [Task.run, parsePostfix]
          exact Passes.bind (here .primary (by simp [rank]) fun _ => trivial)
            (fun primary => later (.suffixes primary) fun _ => trivial) state past
      | suffixes base =>
          simp only [Task.run, parseSuffixes]
          refine (Keeps.currentToken.bind fun token => ?_) state past
          split
          · exact Keeps.advance.bind fun _ => Passes.keeps (.bind expectMemberName_passes
              fun field => Keeps.newId.bind fun id =>
                later (.suffixes (.member base field id)) fun _ => trivial)
          · split
            · exact .ofPure _
            · exact Passes.keeps (.bind
                (here (.indexOrSlice base) (by simp [rank]) fun _ => trivial)
                fun suffixed => later (.suffixes suffixed) fun _ => trivial)
          · split
            · exact .ofPure _
            · exact Keeps.openBracket.bind fun _ => Keeps.advance.bind fun _ =>
                Keeps.bind (here (.items .rightParen []) (by simp [rank]) fun _ => trivial)
                  fun args => Keeps.closeBracket.bind fun _ =>
                    Passes.keeps (.bind (.expectSymbol _) fun close => Keeps.newId.bind fun id =>
                      later (.suffixes (.call (base.span.union close) id base args))
                        fun _ => trivial)
          · exact .ofPure _
      | items close gathered =>
          simp only [Task.run, parseItems]
          refine ((Keeps.atSymbol _).bind fun _ => ?_) state past
          split
          · exact .ofPure _
          · exact Passes.keeps (.bind (here .expr (by simp [rank]) fun _ => trivial) fun item =>
              (afterItem_keeps _).bind fun _ =>
                later (.items close (item :: gathered)) fun _ => trivial)
      | optional stop =>
          simp only [Task.run, parseUnless]
          refine ((Keeps.atSymbol _).bind fun _ => ?_) state past
          split
          · exact .ofPure _
          · exact Passes.keeps (.bind (here .expr (by simp [rank]) fun _ => trivial)
              fun _ => .ofPure _)
      | indexOrSlice base =>
          simp only [Task.run, parseIndexOrSlice]
          have bound stop := here (.optional stop) (by simp [rank]) fun _ => trivial
          refine Passes.bindLater .span (fun _ => .bindLater .openBracket fun _ =>
            .bindLater .advance fun _ => .bindLater (bound .colon) fun first =>
              .bindLater (.atSymbol _) fun _ => ?_) state past
          split
          · exact .bindLater .advance fun _ => .bindLater (bound .rightBracket) fun _ =>
              .bindLater .closeBracket fun _ => .bind (.expectSymbol _) fun _ =>
                Keeps.newId.bind fun _ => .ofPure _
          · refine .bindLater .closeBracket fun _ => .bind (.expectSymbol _) fun _ => ?_
            split
            · exact .unexpected _
            · exact Keeps.newId.bind fun _ => .ofPure _
      | primary =>
          simp only [Task.run, parsePrimary]
          refine .look fun start _ => .look fun found seen => ?_
          have further (other : found ≠ .endOfFile) : state.advance.Past 1 total :=
            past.further (by rw [seen]; exact other)
          have atom (node : NodeId → Expr) (other : found ≠ .endOfFile) :
              ((do advance; let id ← newId; return node id : Parser Expr) state).Meets
                (State.Past 1 total) :=
            .move ((Keeps.newId.bind fun _ => .ofPure _) _ (further other))
          have opened (other : found ≠ .endOfFile) :
              State.Past 1 total ({ state with nesting := state.nesting + 1 } : State).advance :=
            State.Past.further ⟨past.ended, past.room⟩
              (by show state.kind ≠ _; rw [seen]; exact other)
          have closing (close : Symbol) (node : Span → NodeId → Expr) :
              Keeps 1 total (do
                closeBracket
                let close ← expectSymbol close
                let id ← newId
                return node close id) :=
            Keeps.closeBracket.bind fun _ => (Passes.expectSymbol _).keeps.bind fun _ =>
              Keeps.newId.bind fun _ => .ofPure _
          split
          · exact atom _ nofun
          · exact atom _ nofun
          · exact atom _ nofun
          · split
            · exact atom _ nofun
            · exact atom _ nofun
            · exact atom _ nofun
            · exact atom _ nofun
            · exact atom _ nofun
            · refine ih .function ?_ state past ?_
              · simp only [rank] at enough ⊢
                omega
              · show state.kind ≠ .endOfFile
                rw [seen]
                nofun
            · exact Passes.unexpected _ state past
          · split
            · exact .move (.move ((Keeps.bind (later .expr fun _ => trivial)
                fun inner => closing _ fun _ _ => _) _ (opened nofun)))
            · exact .move (.move ((Keeps.bind (later (.items .rightBracket []) fun _ => trivial)
                fun items => closing _ fun _ _ => _) _ (opened nofun)))
            · exact .move (.move ((Keeps.bind (later (.entries []) fun _ => trivial)
                fun entries => closing _ fun _ _ => _) _ (opened nofun)))
            · exact Passes.unexpected _ state past
          · exact Passes.unexpected _ state past
      | entries gathered =>
          simp only [Task.run, parseEntries]
          refine ((Keeps.atSymbol _).bind fun _ => ?_) state past
          split
          · exact .ofPure _
          · refine Passes.keeps (.bind (here .expr (by simp [rank]) fun _ => trivial) fun key =>
              (Keeps.atSymbol _).bind fun _ => ?_)
            split
            · exact Keeps.advance.bind fun _ => Keeps.bind (later .expr fun _ => trivial)
                fun value => (afterItem_keeps _).bind fun _ =>
                  later (.entries ((key, value) :: gathered)) fun _ => trivial
            · exact Keeps.closeBracket.bind fun _ => .unexpected _
      | function =>
          simp only [Task.run, parseFunction]
          refine .look fun start _ => .look fun nesting _ => .move (.move ?_)
          refine (Keeps.bind (later .paramList fun _ => trivial) fun params =>
            .bind (later (.block []) fun _ => trivial) fun body => Keeps.span.bind fun stop =>
              (Passes.expectKeyword _).keeps.bind fun _ => (Keeps.setNesting _).bind fun _ =>
                (Passes.expectKeyword _).keeps.bind fun _ => Keeps.newId.bind fun _ =>
                  .ofPure _) _ ?_
          exact State.Past.further ⟨past.ended, past.room⟩ ready
      | paramList =>
          simp only [Task.run, parseParamList]
          refine ((Keeps.atSymbol _).bind fun _ => ?_) state past
          split
          · exact Keeps.openBracket.bind fun _ => Keeps.advance.bind fun _ =>
              Keeps.bind (here (.params []) (by simp [rank]) fun _ => trivial) fun _ =>
                Keeps.closeBracket.bind fun _ => (Passes.expectSymbol _).keeps.bind fun _ =>
                  .ofPure _
          · exact .ofPure _
      | params gathered =>
          simp only [Task.run, parseParams]
          refine ((Keeps.atSymbol _).bind fun _ => ?_) state past
          split
          · exact .ofPure _
          · exact Passes.keeps (.bind expectName_passes fun name =>
              .bind (later (.default name.name) fun _ => trivial) fun default =>
                Keeps.newId.bind fun id => (afterItem_keeps _).bind fun _ =>
                  later (.params (.mk id name default :: gathered)) fun _ => trivial)
      | default param =>
          simp only [Task.run, parseDefault]
          refine ((Keeps.atSymbol _).bind fun _ => ?_) state past
          split
          · refine Keeps.advance.bind fun _ =>
              Passes.keeps (.bind (here .unary (by simp [rank]) fun _ => trivial) fun value => ?_)
            split
            · exact .ofPure _
            · exact Keeps.closeBracket.bind fun _ => .fail _
          · exact .ofPure _
      | block gathered =>
          simp only [Task.run, parseBlock]
          refine (Keeps.skipSeparators.bind fun _ => Keeps.kind.bind fun found => ?_) state past
          split
          · exact .ofPure _
          · exact .ofPure _
          · exact .unexpected _
          · exact Passes.keeps (.bind (here .stmt (by simp [rank]) fun _ => trivial) fun stmt =>
              expectStatementEnd_keeps.bind fun _ =>
                later (.block (stmt :: gathered)) fun _ => trivial)
      | stmt =>
          simp only [Task.run, parseStmt]
          refine Passes.bindLater .beginStatement (fun _ state past => ?_) state past
          refine .look fun found seen => ?_
          have further (other : found ≠ .endOfFile) : state.advance.Past 1 total :=
            past.further (by rw [seen]; exact other)
          split
          · exact here .conditional (by simp [rank]) (fun _ => trivial) state past
          · exact Passes.bind (.expectKeyword _) (fun _ => .bind (later .expr fun _ => trivial)
              fun _ => .bind (later (.block []) fun _ => trivial) fun _ =>
                (expectEnd_keeps _).bind fun _ => Keeps.newId.bind fun _ => .ofPure _) state past
          · exact Passes.bind (.expectKeyword _) (fun _ => expectName_passes.keeps.bind fun _ =>
              (Passes.expectKeyword _).keeps.bind fun _ => .bind (later .expr fun _ => trivial)
                fun _ => .bind (later (.block []) fun _ => trivial) fun _ =>
                  (expectEnd_keeps _).bind fun _ => Keeps.newId.bind fun _ => .ofPure _) state past
          · exact .look fun _ _ => .move ((Keeps.newId.bind fun _ => .ofPure _) _ (further nofun))
          · exact .look fun _ _ => .move ((Keeps.newId.bind fun _ => .ofPure _) _ (further nofun))
          · refine .look fun _ _ => .move ((Keeps.kind.bind fun _ => ?_) _ (further nofun))
            split
            · exact Keeps.newId.bind fun _ => .ofPure _
            · exact .bind (later .expr fun _ => trivial) fun _ => Keeps.newId.bind fun _ =>
                .ofPure _
          · exact here .simple (by simp [rank]) (fun _ => trivial) state past
      | conditional =>
          simp only [Task.run, parseIf]
          refine Passes.bind (.expectKeyword _) (fun start =>
            .bind (later .expr fun _ => trivial) fun condition =>
              (Passes.expectKeyword _).keeps.bind fun _ => Keeps.kind.bind fun found => ?_)
            state past
          split
          · exact later (.ifBlock start condition) fun _ => trivial
          · exact later (.ifBlock start condition) fun _ => trivial
          · refine .bind (later .stmt fun _ => trivial) fun _ =>
              (Keeps.atKeyword _).bind fun _ => ?_
            split
            · exact Keeps.advance.bind fun _ => .bind (later .stmt fun _ => trivial) fun _ =>
                Keeps.newId.bind fun _ => .ofPure _
            · exact Keeps.newId.bind fun _ => .ofPure _
      | ifBlock start condition =>
          simp only [Task.run, parseIfBlock]
          have block := here (.block []) (by simp [rank]) fun _ => trivial
          refine Passes.bindLater block (fun _ => .bindLater (.atKeyword _) fun _ => ?_) state past
          split
          · refine .bindLater .advance fun _ => .bindLater (.atKeyword _) fun _ => ?_
            split
            · exact .bindLater .span fun nestedStart => .bindLater .advance fun _ =>
                .bind (here .expr (by simp [rank]) fun _ => trivial)
                  fun nestedCondition => (Passes.expectKeyword _).keeps.bind fun _ =>
                    .bind (later (.ifBlock nestedStart nestedCondition) fun _ => trivial) fun _ =>
                      Keeps.newId.bind fun _ => .ofPure _
            · exact .bindLater block fun _ => .bind (expectEnd_passes _) fun _ =>
                Keeps.newId.bind fun _ => .ofPure _
          · exact .bind (expectEnd_passes _) fun _ => Keeps.newId.bind fun _ => .ofPure _
      | simple =>
          simp only [Task.run, parseSimple]
          have target := here .fromTarget (by simp [rank]) fun _ => trivial
          refine Passes.bindLater .kind (fun found => ?_) state past
          split
          · exact target
          · exact target
          · exact target
          · exact .bind (here .expr (by simp [rank]) fun _ => trivial) fun _ =>
              Keeps.newId.bind fun _ => .ofPure _
      | fromTarget =>
          simp only [Task.run, parseFromTarget]
          refine Passes.bind (here .postfixed (by simp [rank]) fun _ => trivial)
            (fun target => Keeps.kind.bind fun found => ?_) state past
          split
          · split
            · exact Keeps.advance.bind fun _ => Keeps.skipLineEnds.bind fun _ =>
                .bind (later .expr fun _ => trivial) fun _ => Keeps.newId.bind fun _ => .ofPure _
            · exact .fail _
          · refine Keeps.currentToken.bind fun token => Keeps.nextToken.bind fun next => ?_
            split
            · exact .bind (later .expr fun _ => trivial) fun first =>
                .bind (later (.arguments [first]) fun _ => trivial) fun _ =>
                  Keeps.newId.bind fun _ => Keeps.newId.bind fun _ => .ofPure _
            · exact .bind (later (.powerRest target) fun _ => trivial) fun base =>
                .bind (later (.binaryRest base orLevel) fun _ => trivial) fun _ =>
                  Keeps.newId.bind fun _ => .ofPure _
      | arguments gathered =>
          simp only [Task.run, parseArguments]
          refine ((Keeps.atSymbol _).bind fun _ => ?_) state past
          split
          · exact Keeps.advance.bind fun _ => Keeps.skipLineEnds.bind fun _ =>
              Passes.keeps (.bind (here .expr (by simp [rank]) fun _ => trivial) fun arg =>
                later (.arguments (arg :: gathered)) fun _ => trivial)
          · exact .ofPure _
      | statements gathered =>
          simp only [Task.run, parseStatements]
          refine (Keeps.skipSeparators.bind fun _ => Keeps.kind.bind fun found => ?_) state past
          split
          · exact .ofPure _
          · exact .unexpected _
          · exact .unexpected _
          · exact Passes.keeps (.bind (here .stmt (by simp [rank]) fun _ => trivial) fun stmt =>
              expectStatementEnd_keeps.bind fun _ =>
                later (.statements (stmt :: gathered)) fun _ => trivial)

end Task

end MiniScript.Parser
