import Mathlib.Data.List.Basic
import MiniScript.Proofs.Parser.Task

/-!
# Two parsers side by side

One parser reads a list of tokens, the other the same list with line ends put in
after some of the tokens. While line ends come only after tokens that the first
parser passes inside brackets, the second skips them all and is always at the same
token, so both come to the same reply. With nothing put in, this says that more
steps to nest do not change a reply.
-/

namespace MiniScript.Parser

variable {α β : Type}

/-- The tokens from `position` on, each with the extra tokens that come after it. -/
def spread (extra : Nat → List Token) : Nat → List Token → List Token
  | _, [] => []
  | position, token :: rest => token :: (extra position ++ spread extra (position + 1) rest)

/-- Only line ends are put in, and only after tokens that are passed inside brackets. The record
tells how many brackets are open at each token that is passed, the latest first. -/
structure Harmless (extra : Nat → List Token) (record : List Nat) : Prop where
  lineEnds : ∀ position, ∀ token ∈ extra position, token.kind = .endOfLine
  inside : ∀ position, extra position ≠ [] →
    ∃ nesting, record.reverse[position]? = some nesting ∧ 0 < nesting

namespace Harmless

variable {extra : Nat → List Token} {record : List Nat}

theorem eq_nil_of_outside (harmless : Harmless extra record) {older : List Nat}
    (passed : 0 :: older <:+ record) : extra older.length = [] := by
  obtain ⟨newer, rfl⟩ := passed
  by_contra put
  obtain ⟨nesting, found, positive⟩ := harmless.inside _ put
  have tag : (newer ++ 0 :: older).reverse[older.length]? = some 0 := by
    rw [List.reverse_append, List.reverse_cons, List.append_assoc, ← List.length_reverse,
      List.getElem?_append_right (Nat.le_refl _), Nat.sub_self]
    rfl
  rw [tag] at found
  cases found
  exact Nat.lt_irrefl 0 positive

theorem eq_nil_of_beyond (harmless : Harmless extra record) {position : Nat}
    (beyond : record.length ≤ position) : extra position = [] := by
  by_contra put
  obtain ⟨nesting, found, _⟩ := harmless.inside position put
  rw [List.getElem?_eq_none (by rw [List.length_reverse]; exact beyond)] at found
  cases found

end Harmless

/-- The other parser is at the same token, and ahead of it has the same tokens and the extra
ones. The record does not reach beyond the last token. -/
structure Alongside (extra : Nat → List Token) (record : List Nat) (state other : State) :
    Prop where
  current : other.current = state.current
  ahead : other.ahead =
    extra state.passed.length ++ spread extra (state.passed.length + 1) state.ahead
  nesting : other.nesting = state.nesting
  nextId : other.nextId = state.nextId
  room : record.length ≤ state.passed.length + state.ahead.length

/-- The way from one state to a later one is on record, one entry for each token, and the statements
on the way have been begun outside of brackets. -/
structure State.Precedes (state after : State) : Prop where
  passed : state.passed <:+ after.passed
  tokens : ∃ gone, state.current :: state.ahead = gone ++ after.current :: after.ahead ∧
    after.passed.length = state.passed.length + gone.length
  begun : ∃ starts, after.begun = starts ++ state.begun ∧ ∀ nesting ∈ starts, nesting = 0

namespace State

/-- Both are at the same token, with the same on record. -/
theorem Precedes.of_eq {state after : State} (current : after.current = state.current)
    (ahead : after.ahead = state.ahead) (passed : after.passed = state.passed)
    (begun : after.begun = state.begun) : state.Precedes after where
  passed := passed ▸ List.suffix_rfl
  tokens := ⟨[], by rw [current, ahead, List.nil_append], by rw [passed, List.length_nil]; rfl⟩
  begun := ⟨[], begun, nofun⟩

theorem Precedes.rfl {state : State} : state.Precedes state :=
  .of_eq (Eq.refl _) (Eq.refl _) (Eq.refl _) (Eq.refl _)

theorem Precedes.trans {state between after : State} (first : state.Precedes between)
    (rest : between.Precedes after) : state.Precedes after := by
  obtain ⟨gone, split, count⟩ := first.tokens
  obtain ⟨more, splitRest, countRest⟩ := rest.tokens
  obtain ⟨starts, begun, outside⟩ := first.begun
  obtain ⟨others, begunRest, outsideRest⟩ := rest.begun
  refine ⟨first.passed.trans rest.passed, ⟨gone ++ more, ?_, ?_⟩, others ++ starts, ?_, ?_⟩
  · rw [split, splitRest, List.append_assoc]
  · rw [countRest, count, List.length_append, Nat.add_assoc]
  · rw [begunRest, begun, List.append_assoc]
  · exact List.forall_mem_append.mpr ⟨outsideRest, outside⟩

/-- One entry for each token. -/
theorem Precedes.count {state after : State} (precedes : state.Precedes after) :
    after.passed.length + after.ahead.length = state.passed.length + state.ahead.length := by
  obtain ⟨gone, split, count⟩ := precedes.tokens
  have lengths := congrArg List.length split
  rw [List.length_append, List.length_cons, List.length_cons] at lengths
  omega

theorem step_of_cons {state : State} {token : Token} {rest : List Token}
    (more : state.ahead = token :: rest) :
    state.step =
      { state with current := token, ahead := rest, passed := state.nesting :: state.passed } := by
  unfold step
  rw [more]

theorem step_of_nil {state : State} (last : state.ahead = []) : state.step = state := by
  unfold step
  rw [last]

theorem step_nesting (state : State) : state.step.nesting = state.nesting := by
  unfold step
  split <;> rfl

theorem precedes_step (state : State) : state.Precedes state.step := by
  cases more : state.ahead with
  | nil =>
      rw [step_of_nil more]
      exact .rfl
  | cons token rest =>
      rw [step_of_cons more]
      refine ⟨List.suffix_cons _ _, ⟨[state.current], ?_, rfl⟩, [], rfl, nofun⟩
      rw [more]
      rfl

theorem skip_of_not {skipped : Token.Kind → Bool} {state : State}
    (stays : skipped state.kind = false) : state.skip skipped = state := by
  unfold skip
  cases state.ahead.length with
  | zero => rfl
  | succ count => rw [skipSteps, stays]; rfl

theorem skip_of_nil {skipped : Token.Kind → Bool} {state : State} (last : state.ahead = []) :
    state.skip skipped = state := by
  rw [skip, last]
  rfl

theorem skip_of_cons {skipped : Token.Kind → Bool} {state : State} {token : Token}
    {rest : List Token} (more : state.ahead = token :: rest)
    (goes : skipped state.kind = true) : state.skip skipped = state.step.skip skipped := by
  rw [skip, more, List.length_cons, skipSteps, goes, skip, step_of_cons more]
  rfl

/-- Skipping is a number of steps, each at a token to be skipped. -/
theorem skip_induction {motive : State → State → Prop} (skipped : Token.Kind → Bool)
    (stop : ∀ state, motive state state)
    (step : ∀ state final, skipped state.kind = true → motive state.step final →
      motive state final) (state : State) :
    motive state (state.skip skipped) := by
  obtain ⟨count, size⟩ : ∃ count, state.ahead.length = count := ⟨_, rfl⟩
  induction count generalizing state with
  | zero =>
      rw [skip_of_nil (List.eq_nil_of_length_eq_zero size)]
      exact stop state
  | succ count ih =>
      obtain ⟨token, rest, more⟩ := List.exists_cons_of_length_eq_add_one size
      cases goes : skipped state.kind with
      | false =>
          rw [skip_of_not goes]
          exact stop state
      | true =>
          rw [skip_of_cons more goes]
          refine step state _ goes (ih state.step ?_)
          rw [step_ahead_length, size]
          rfl

theorem skip_nesting (skipped : Token.Kind → Bool) (state : State) :
    (state.skip skipped).nesting = state.nesting :=
  skip_induction (motive := fun state final => final.nesting = state.nesting) skipped
    (fun _ => rfl) (fun state _ _ same => same.trans state.step_nesting) state

theorem precedes_skip (skipped : Token.Kind → Bool) (state : State) :
    state.Precedes (state.skip skipped) :=
  skip_induction (motive := Precedes) skipped
    (fun _ => .rfl) (fun state _ _ rest => state.precedes_step.trans rest) state

theorem advance_nesting (state : State) : state.advance.nesting = state.nesting := by
  unfold advance skipLineEnds
  split
  · rw [skip_nesting, step_nesting]
  · exact state.step_nesting

theorem step_precedes_advance (state : State) : state.step.Precedes state.advance := by
  unfold advance skipLineEnds
  split
  · exact precedes_skip _ _
  · exact .rfl

theorem precedes_advance (state : State) : state.Precedes state.advance :=
  state.precedes_step.trans state.step_precedes_advance

/-- Extra line ends are skipped together with those that were there. -/
theorem skip_lineEnds {skipped : Token.Kind → Bool} (skips : skipped .endOfLine = true)
    {state : State} {ends rest : List Token} {token : Token}
    (lineEnds : ∀ extra ∈ ends, extra.kind = .endOfLine)
    (more : state.ahead = ends ++ token :: rest) (goes : skipped state.kind = true) :
    ∃ passed, state.skip skipped =
      ({ state with current := token, ahead := rest, passed } : State).skip skipped := by
  induction ends generalizing state with
  | nil => exact ⟨_, by rw [skip_of_cons more goes, step_of_cons more]⟩
  | cons first others ih =>
      rw [List.forall_mem_cons] at lineEnds
      have next : skipped state.step.kind = true := by
        rw [step_of_cons more, kind, lineEnds.1]
        exact skips
      have left : state.step.ahead = others ++ token :: rest :=
        congrArg State.ahead (step_of_cons more)
      obtain ⟨passed, same⟩ := ih lineEnds.2 left next
      refine ⟨passed, ?_⟩
      rw [skip_of_cons more goes, same, step_of_cons more]

end State

namespace Alongside

variable {extra : Nat → List Token} {record : List Nat} {state other : State}

theorem kind_eq (along : Alongside extra record state other) : other.kind = state.kind :=
  congrArg Token.kind along.current

theorem span_eq (along : Alongside extra record state other) : other.span = state.span :=
  congrArg Token.span along.current

theorem last (harmless : Harmless extra record) (along : Alongside extra record state other)
    (last : state.ahead = []) : other.ahead = [] := by
  have room := along.room
  rw [last, List.length_nil, Nat.add_zero] at room
  rw [along.ahead, last, harmless.eq_nil_of_beyond room]
  rfl

/-- Behind the extra tokens both are at the next token. -/
theorem next (along : Alongside extra record state other) {token : Token} {rest : List Token}
    (more : state.ahead = token :: rest) (passed : List Nat) :
    Alongside extra record state.step
      { other with
        current := token
        ahead := extra (state.passed.length + 1) ++ spread extra (state.passed.length + 2) rest
        passed } := by
  rw [State.step_of_cons more]
  refine ⟨rfl, rfl, along.nesting, along.nextId, ?_⟩
  have room := along.room
  rw [more, List.length_cons] at room
  show record.length ≤ state.passed.length + 1 + rest.length
  omega

/-- Nothing has been put in between the current token and the next. -/
theorem step (along : Alongside extra record state other)
    (close : extra state.passed.length = []) : Alongside extra record state.step other.step := by
  have ahead := along.ahead
  rw [close, List.nil_append] at ahead
  cases more : state.ahead with
  | nil =>
      rw [more] at ahead
      rw [State.step_of_nil more, State.step_of_nil ahead]
      exact along
  | cons token rest =>
      rw [more] at ahead
      rw [State.step_of_cons ahead]
      exact along.next more _

theorem skip (harmless : Harmless extra record) {skipped : Token.Kind → Bool}
    (skips : skipped .endOfLine = true) (along : Alongside extra record state other) :
    Alongside extra record (state.skip skipped) (other.skip skipped) := by
  obtain ⟨count, size⟩ : ∃ count, state.ahead.length = count := ⟨_, rfl⟩
  induction count generalizing state other with
  | zero =>
      have none := List.eq_nil_of_length_eq_zero size
      rw [State.skip_of_nil none, State.skip_of_nil (along.last harmless none)]
      exact along
  | succ count ih =>
      obtain ⟨token, rest, more⟩ := List.exists_cons_of_length_eq_add_one size
      cases goes : skipped state.kind with
      | false =>
          rw [State.skip_of_not goes, State.skip_of_not (by rw [along.kind_eq]; exact goes)]
          exact along
      | true =>
          have ahead := along.ahead
          rw [more] at ahead
          obtain ⟨passed, same⟩ := State.skip_lineEnds skips (harmless.lineEnds _) ahead
            (by rw [along.kind_eq]; exact goes)
          rw [State.skip_of_cons more goes, same]
          refine ih (along.next more passed) ?_
          rw [State.step_ahead_length, size]
          rfl

theorem advance (harmless : Harmless extra record) (along : Alongside extra record state other)
    (within : state.advance.passed <:+ record) :
    Alongside extra record state.advance other.advance := by
  unfold State.advance
  rw [along.nesting]
  split
  · -- Inside brackets: the extra line ends are skipped with the others.
    cases more : state.ahead with
    | nil =>
        rw [State.step_of_nil more, State.step_of_nil (along.last harmless more)]
        exact along.skip harmless rfl
    | cons token rest =>
        have ahead := along.ahead
        rw [more, spread] at ahead
        rw [State.skipLineEnds, State.skipLineEnds]
        cases put : extra state.passed.length with
        | nil => exact (along.step put).skip harmless rfl
        | cons first others =>
            rw [put, List.cons_append] at ahead
            have lineEnds := harmless.lineEnds state.passed.length
            rw [put, List.forall_mem_cons] at lineEnds
            have stepped := State.step_of_cons ahead
            have atLineEnd : other.step.kind.isEndOfLine = true := by
              rw [stepped, State.kind, lineEnds.1]
              rfl
            have left : other.step.ahead = others ++ token :: _ := congrArg State.ahead stepped
            obtain ⟨passed, same⟩ := State.skip_lineEnds rfl lineEnds.2 left atLineEnd
            rw [same, stepped]
            exact (along.next more passed).skip harmless rfl
  · -- Outside brackets nothing has been put in after a token that is passed.
    rename_i outside
    have zero : state.nesting = 0 := Nat.eq_zero_of_not_pos outside
    cases more : state.ahead with
    | nil =>
        rw [State.step_of_nil more, State.step_of_nil (along.last harmless more)]
        exact along
    | cons token rest =>
        have passed : state.step.passed = 0 :: state.passed := by
          rw [State.step_of_cons more, zero]
        refine along.step (harmless.eq_nil_of_outside ?_)
        rw [← passed]
        exact state.step_precedes_advance.passed.trans within

end Alongside

/-- The reply of a parser that started in `state` with all brackets accounted for. -/
def Reply.Steady (state : State) (nesting : Nat) : Reply α → Prop
  | .ok _ after => state.Precedes after ∧ after.nesting = nesting
  | .failed _ stopped => state.Precedes stopped
  | .exhausted => True

/-- The other parser gives the same reply, if the record goes on as the first parser did. -/
def Reply.Along (extra : Nat → List Token) (record : List Nat) : Reply α → Reply α → Prop
  | .ok value after, reply => after.passed <:+ record →
      ∃ other, reply = .ok value other ∧ Alongside extra record after other
  | .failed error stopped, reply => stopped.passed <:+ record →
      ∃ other, reply = .failed error other
  | .exhausted, _ => True

theorem Reply.Steady.bind {start state : State} {middle after : Nat} {parser : Parser α}
    {next : α → Parser β} (begun : (parser state).Steady start middle)
    (rest : ∀ value between, between.nesting = middle →
      (next value between).Steady between after) :
    ((parser >>= next) state).Steady start after := by
  show (andThen parser next state).Steady start after
  unfold andThen
  cases reply : parser state with
  | ok value between =>
      rw [reply] at begun
      have goes := rest value between begun.2
      dsimp only
      cases final : next value between with
      | ok result last =>
          rw [final] at goes
          exact ⟨begun.1.trans goes.1, goes.2⟩
      | failed error stopped =>
          rw [final] at goes
          exact begun.1.trans goes
      | exhausted => trivial
  | failed error stopped =>
      rw [reply] at begun
      exact begun
  | exhausted => trivial

/-- Started alongside, with `before` brackets open, both parsers come to the same reply, and if it
is a result, `after` brackets are open then. -/
structure Tracks (extra : Nat → List Token) (record : List Nat) (before after : Nat)
    (parser other : Parser α) : Prop where
  steady : ∀ state, state.nesting = before → (parser state).Steady state after
  along : ∀ state companion, state.nesting = before → Alongside extra record state companion →
    (parser state).Along extra record (other companion)

namespace Tracks

variable {extra : Nat → List Token} {record : List Nat} {before middle after : Nat}
variable {parser other : Parser α} {next following : α → Parser β}

theorem bind (first : Tracks extra record before middle parser other)
    (rest : ∀ value, Tracks extra record middle after (next value) (following value)) :
    Tracks extra record before after (parser >>= next) (other >>= following) where
  steady state opened := (first.steady state opened).bind fun value => (rest value).steady
  along state companion opened along := by
    have begun := first.along state companion opened along
    have grown := first.steady state opened
    show (andThen parser next state).Along extra record (andThen other following companion)
    unfold andThen
    cases reply : parser state with
    | ok value between =>
        rw [reply] at begun grown
        have goes := (rest value).steady between grown.2
        have goesAlong := fun companion => (rest value).along between companion grown.2
        dsimp only
        -- What is passed later is in the record, so what has been passed so far is too.
        cases final : next value between with
        | ok result last =>
            rw [final] at goes
            intro within
            obtain ⟨soon, same, alongside⟩ := begun (goes.1.passed.trans within)
            have replied := goesAlong soon alongside
            rw [final] at replied
            rw [same]
            exact replied within
        | failed error stopped =>
            rw [final] at goes
            intro within
            obtain ⟨soon, same, alongside⟩ := begun (goes.passed.trans within)
            have replied := goesAlong soon alongside
            rw [final] at replied
            rw [same]
            exact replied within
        | exhausted => trivial
    | failed error stopped =>
        rw [reply] at begun
        intro within
        obtain ⟨soon, same⟩ := begun within
        exact ⟨soon, by rw [same]⟩
    | exhausted => trivial

theorem ofPure (value : α) :
    Tracks extra record before before (pure value : Parser α) (pure value) where
  steady _ opened := ⟨State.Precedes.rfl, opened⟩
  along _ companion _ along _ := ⟨companion, rfl, along⟩

/-- A look at the state that gives the same answer to both. -/
theorem ofLook {look : State → α}
    (same : ∀ state companion, Alongside extra record state companion →
      look companion = look state) :
    Tracks extra record before before (fun state => .ok (look state) state : Parser α)
      (fun state => .ok (look state) state) where
  steady _ opened := ⟨State.Precedes.rfl, opened⟩
  along state companion _ along _ := ⟨companion, by rw [same state companion along], along⟩

theorem kind : Tracks extra record before before Parser.kind Parser.kind :=
  ofLook fun _ _ along => along.kind_eq

theorem span : Tracks extra record before before Parser.span Parser.span :=
  ofLook fun _ _ along => along.span_eq

theorem currentToken :
    Tracks extra record before before Parser.currentToken Parser.currentToken :=
  ofLook fun _ _ along => along.current

theorem atSymbol (mark : Symbol) :
    Tracks extra record before before (Parser.atSymbol mark) (Parser.atSymbol mark) :=
  ofLook fun _ _ along => congrArg (Token.Kind.isSymbol mark) along.kind_eq

theorem atKeyword (word : Keyword) :
    Tracks extra record before before (Parser.atKeyword word) (Parser.atKeyword word) :=
  ofLook fun _ _ along => congrArg (Token.Kind.isKeyword word) along.kind_eq

theorem newId : Tracks extra record before before Parser.newId Parser.newId where
  steady _ opened := ⟨.of_eq rfl rfl rfl rfl, opened⟩
  along state companion _ along _ :=
    ⟨{ companion with nextId := companion.nextId + 1 },
      by rw [Parser.newId, along.nextId],
      along.current, along.ahead, along.nesting, congrArg (· + 1) along.nextId, along.room⟩

theorem setNesting (nesting : Nat) :
    Tracks extra record before nesting (Parser.setNesting nesting) (Parser.setNesting nesting) where
  steady _ _ := ⟨.of_eq rfl rfl rfl rfl, rfl⟩
  along _ companion _ along _ :=
    ⟨{ companion with nesting }, rfl, along.current, along.ahead, rfl, along.nextId, along.room⟩

theorem openBracket :
    Tracks extra record before (before + 1) Parser.openBracket Parser.openBracket where
  steady _ opened := ⟨.of_eq rfl rfl rfl rfl, congrArg (· + 1) opened⟩
  along _ companion _ along _ :=
    ⟨{ companion with nesting := companion.nesting + 1 }, rfl, along.current, along.ahead,
      congrArg (· + 1) along.nesting, along.nextId, along.room⟩

theorem closeBracket :
    Tracks extra record before (before - 1) Parser.closeBracket Parser.closeBracket where
  steady _ opened := ⟨.of_eq rfl rfl rfl rfl, congrArg (· - 1) opened⟩
  along _ companion _ along _ :=
    ⟨{ companion with nesting := companion.nesting - 1 }, rfl, along.current, along.ahead,
      congrArg (· - 1) along.nesting, along.nextId, along.room⟩

/-- Statements are begun outside of brackets. -/
theorem beginStatement :
    Tracks extra record 0 0 Parser.beginStatement Parser.beginStatement where
  steady state opened := by
    refine ⟨⟨List.suffix_rfl, ⟨[], rfl, rfl⟩, [state.nesting], rfl, ?_⟩, opened⟩
    exact List.forall_mem_singleton.mpr opened
  along _ companion _ along _ :=
    ⟨{ companion with begun := companion.nesting :: companion.begun }, rfl, along.current,
      along.ahead, along.nesting, along.nextId, along.room⟩

/-- The number of open brackets is known, so what follows need only be compared for it. -/
theorem getNesting {next following : Nat → Parser β}
    (rest : Tracks extra record before after (next before) (following before)) :
    Tracks extra record before after (Parser.getNesting >>= next)
      (Parser.getNesting >>= following) where
  steady state opened := by
    show (next state.nesting state).Steady state after
    rw [opened]
    exact rest.steady state opened
  along state companion opened along := by
    show (next state.nesting state).Along extra record (following companion.nesting companion)
    rw [along.nesting, opened]
    exact rest.along state companion opened along

theorem fail (error : ParseError) :
    Tracks extra record before after (Parser.fail error : Parser α) (Parser.fail error) where
  steady _ _ := State.Precedes.rfl
  along _ companion _ _ _ := ⟨companion, rfl⟩

theorem unexpected_steady (expected : String) (state : State) :
    (Parser.unexpected expected state : Reply α).Steady state after := by
  unfold Parser.unexpected
  split <;> exact State.Precedes.rfl

theorem unexpected_along (expected : String) {state companion : State}
    (along : Alongside extra record state companion) :
    (Parser.unexpected expected state : Reply α).Along extra record
      (Parser.unexpected expected companion) := by
  unfold Parser.unexpected
  rw [along.kind_eq, along.span_eq]
  split <;> exact fun _ => ⟨companion, rfl⟩

theorem unexpected (expected : String) :
    Tracks extra record before after (Parser.unexpected expected : Parser α)
      (Parser.unexpected expected) where
  steady state _ := unexpected_steady expected state
  along _ _ _ along := unexpected_along expected along

section

variable (harmless : Harmless extra record)
include harmless

theorem advance : Tracks extra record before before Parser.advance Parser.advance where
  steady state opened :=
    ⟨state.precedes_advance, state.advance_nesting.trans opened⟩
  along _ companion _ along within := ⟨companion.advance, rfl, along.advance harmless within⟩

theorem skipLineEnds :
    Tracks extra record before before Parser.skipLineEnds Parser.skipLineEnds where
  steady state opened := ⟨state.precedes_skip _, (state.skip_nesting _).trans opened⟩
  along _ companion _ along _ := ⟨companion.skipLineEnds, rfl, along.skip harmless rfl⟩

theorem skipSeparators :
    Tracks extra record before before Parser.skipSeparators Parser.skipSeparators where
  steady state opened := ⟨state.precedes_skip _, (state.skip_nesting _).trans opened⟩
  along _ companion _ along _ := ⟨companion.skip isSeparator, rfl, along.skip harmless rfl⟩

/-- Expecting one kind of token. -/
theorem expect (wanted : Token.Kind → Bool) (expected : String) :
    Tracks extra record before before
      (fun state => if wanted state.kind then .ok state.span state.advance
        else Parser.unexpected expected state)
      (fun state => if wanted state.kind then .ok state.span state.advance
        else Parser.unexpected expected state) where
  steady state opened := by
    split
    · exact (advance harmless).steady state opened
    · exact unexpected_steady _ state
  along state companion _ along := by
    rw [along.kind_eq, along.span_eq]
    split
    · exact fun within => ⟨companion.advance, rfl, along.advance harmless within⟩
    · exact unexpected_along _ along

theorem expectSymbol (mark : Symbol) :
    Tracks extra record before before (Parser.expectSymbol mark) (Parser.expectSymbol mark) :=
  expect harmless _ _

theorem expectKeyword (word : Keyword) :
    Tracks extra record before before (Parser.expectKeyword word) (Parser.expectKeyword word) :=
  expect harmless _ _

end

end Tracks

end MiniScript.Parser
