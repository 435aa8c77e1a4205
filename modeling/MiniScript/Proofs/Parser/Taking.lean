import MiniScript.Proofs.Parser.Placing
import MiniScript.Proofs.Parser.Progress
import MiniScript.Proofs.Token.Spans

/-!
# What a parser takes

Of the tokens that are left only those count that do more than separate. A parser with
a result has taken a row of them from the front. What is shown of a parser tells what
that row is good for, together with tokens that have been taken before it.
-/

namespace MiniScript

/-- A token that is part of something. -/
def Token.Kind.isSolid (kind : Token.Kind) : Bool :=
  !Parser.isSeparator kind && !kind.isEndOfFile

theorem BinaryOp.isSolid_of_fits {op : BinaryOp} {token : Token} (fits : op.mark.Fits token) :
    token.kind.isSolid = true := by
  cases op <;> rw [show token.kind = _ from fits] <;> rfl

namespace Parser

variable {α β : Type}

namespace State

/-- The tokens that are left, without those that only separate. -/
def left (state : State) : List Token :=
  (state.current :: state.ahead).filter fun token => !isSeparator token.kind

variable {state : State}

theorem left_step_of_separator (separates : isSeparator state.kind = true) :
    state.step.left = state.left := by
  cases more : state.ahead with
  | nil => rw [step_of_nil more]
  | cons token rest =>
      rw [step_of_cons more, left, left, more]
      exact (List.filter_cons_of_neg (by simpa [kind] using separates)).symm

theorem left_skip {skipped : Token.Kind → Bool}
    (separators : ∀ kind, skipped kind = true → isSeparator kind = true) (state : State) :
    (state.skip skipped).left = state.left :=
  skip_induction (motive := fun state final => final.left = state.left) skipped (fun _ => rfl)
    (fun _ _ goes same => same.trans (left_step_of_separator (separators _ goes))) state

theorem left_skipLineEnds (state : State) : state.skipLineEnds.left = state.left := by
  refine left_skip (fun kind lineEnd => ?_) state
  rw [Token.Kind.isEndOfLine_iff.mp lineEnd]
  rfl

theorem left_advance (state : State) : state.advance.left = state.step.left := by
  unfold advance
  split
  · exact left_skipLineEnds _
  · rfl

theorem left_of_solid (ended : state.Ended) (solid : state.kind.isSolid = true) :
    state.left = state.current :: state.advance.left := by
  rw [Token.Kind.isSolid, Bool.and_eq_true, Bool.not_eq_true', Bool.not_eq_true'] at solid
  obtain ⟨part, other⟩ := solid
  have some := ended.ahead_ne_nil fun atEnd => by
    rw [atEnd] at other
    exact nomatch other
  obtain ⟨token, rest, more⟩ := List.exists_cons_of_ne_nil some
  rw [left_advance, step_of_cons more, left, left, more]
  exact List.filter_cons_of_pos (by simpa [kind] using part)

theorem Ended.past (ended : state.Ended) : state.Past 0 state.ahead.length :=
  ⟨ended, Nat.le_refl _⟩

theorem Ended.skip (ended : state.Ended) (skipped : Token.Kind → Bool) :
    (state.skip skipped).Ended :=
  (ended.past.skip skipped).ended

theorem Ended.advance (ended : state.Ended) : state.advance.Ended :=
  ended.past.advance.ended

end State

/-- A parser with a result has taken a row of the tokens that are left. Together with those taken
before, it is good. -/
def Takes (before : List Token) (state : State) (good : List Token → α → Prop)
    (parser : Parser α) : Prop :=
  state.Ended → ∀ value after, parser state = .ok value after →
    after.Ended ∧ ∃ row, state.left = row ++ after.left ∧ good (before ++ row) value

namespace Takes

variable {before outer inner : List Token} {state : State} {parser : Parser α}
variable {next : α → Parser β} {mid : List Token → α → Prop} {good : List Token → β → Prop}

/-- The first parser goes on from the latest of the tokens. -/
theorem bindFrom (first : Takes inner state mid parser)
    (rest : ∀ tokens value between, mid tokens value →
      Takes (outer ++ tokens) between good (next value)) :
    Takes (outer ++ inner) state good (parser >>= next) := by
  intro ended result after ran
  obtain ⟨value, between, begun, ran⟩ := bind_inv ran
  obtain ⟨still, row, split, fine⟩ := first ended value between begun
  obtain ⟨last, more, splitRest, final⟩ := rest _ value between fine still result after ran
  refine ⟨last, row ++ more, ?_, ?_⟩
  · rw [split, splitRest, List.append_assoc]
  · rw [List.append_assoc, List.append_assoc] at final
    rwa [List.append_assoc]

theorem bind (first : Takes [] state mid parser)
    (rest : ∀ tokens value between, mid tokens value →
      Takes (before ++ tokens) between good (next value)) :
    Takes before state good (parser >>= next) := by
  have whole := bindFrom first rest
  rwa [List.append_nil] at whole

theorem onward (first : Takes before state mid parser)
    (rest : ∀ tokens value between, mid tokens value → Takes tokens between good (next value)) :
    Takes before state good (parser >>= next) := by
  change Takes ([] ++ before) state good (parser >>= next)
  exact bindFrom first rest

/-- What the last parser takes is enough to know. -/
theorem tailFrom {good : List Token → α → Prop} (rest : Takes inner state mid parser)
    (better : ∀ tokens value, mid tokens value → good (outer ++ tokens) value) :
    Takes (outer ++ inner) state good parser := by
  intro ended value after ran
  obtain ⟨still, row, split, fine⟩ := rest ended value after ran
  refine ⟨still, row, split, ?_⟩
  rw [List.append_assoc]
  exact better _ _ fine

theorem tail {good : List Token → α → Prop} (rest : Takes [] state mid parser)
    (better : ∀ tokens value, mid tokens value → good (before ++ tokens) value) :
    Takes before state good parser := by
  have whole := tailFrom rest better
  rwa [List.append_nil] at whole

theorem ofPure {good : List Token → α → Prop} {value : α} (fine : good before value) :
    Takes before state good (pure value) := by
  rintro ended _ _ ⟨⟩
  exact ⟨ended, [], rfl, by rwa [List.append_nil]⟩

theorem look {look : State → α}
    (rest : ∀ seen, look state = seen → Takes before state good (next seen)) :
    Takes before state good ((fun state => .ok (look state) state : Parser α) >>= next) :=
  rest _ rfl

theorem move {look : State → α} {move : State → State} (kept : (move state).left = state.left)
    (still : state.Ended → (move state).Ended)
    (rest : Takes before (move state) good (next (look state))) :
    Takes before state good
      ((fun state => .ok (look state) (move state) : Parser α) >>= next) := by
  intro ended result after ran
  obtain ⟨last, row, split, final⟩ := rest (still ended) result after ran
  exact ⟨last, row, kept.symm.trans split, final⟩

theorem newId {next : NodeId → Parser β}
    (rest : ∀ id between, Takes before between good (next id)) :
    Takes before state good (Parser.newId >>= next) :=
  move rfl id (rest _ _)

theorem closeBracket {next : Unit → Parser β}
    (rest : ∀ between, Takes before between good (next ())) :
    Takes before state good (Parser.closeBracket >>= next) :=
  move rfl id (rest _)

theorem setNesting {nesting : Nat} {next : Unit → Parser β}
    (rest : Takes before { state with nesting } good (next ())) :
    Takes before state good (Parser.setNesting nesting >>= next) :=
  move rfl id rest

theorem beginStatement {next : Unit → Parser β}
    (rest : ∀ between, Takes before between good (next ())) :
    Takes before state good (Parser.beginStatement >>= next) :=
  move rfl id (rest _)

theorem skipLineEnds {next : Unit → Parser β}
    (rest : ∀ between, Takes before between good (next ())) :
    Takes before state good (Parser.skipLineEnds >>= next) :=
  move state.left_skipLineEnds (fun ended => ended.skip _) (rest _)

theorem skipSeparators {next : Unit → Parser β}
    (rest : ∀ between, Takes before between good (next ())) :
    Takes before state good (Parser.skipSeparators >>= next) :=
  move (State.left_skip (fun _ goes => goes) state) (fun ended => ended.skip _) (rest _)

/-- The current token is taken. -/
theorem advance {next : Unit → Parser β} (solid : state.kind.isSolid = true)
    (rest : ∀ between, Takes (before ++ [state.current]) between good (next ())) :
    Takes before state good (Parser.advance >>= next) := by
  intro ended result after ran
  obtain ⟨last, row, split, final⟩ := rest state.advance ended.advance result after ran
  rw [List.append_assoc] at final
  exact ⟨last, state.current :: row, by rw [State.left_of_solid ended solid, split]; rfl, final⟩

/-- The current token opens a bracket. -/
theorem openBracket {next : Unit → Parser β} (solid : state.kind.isSolid = true)
    (rest : ∀ between, Takes (before ++ [state.current]) between good (next ())) :
    Takes before state good (Parser.openBracket >>= fun _ => Parser.advance >>= next) := by
  refine move rfl id ?_
  exact advance solid rest

theorem unexpected {good : List Token → α → Prop} (expected : String) :
    Takes before state good (Parser.unexpected expected) :=
  fun _ _ _ ran => absurd ran unexpected_ne_ok

theorem fail {good : List Token → α → Prop} (error : ParseError) :
    Takes before state good (Parser.fail error) :=
  fun _ _ _ ran => nomatch ran

theorem outOfFuel {good : List Token → α → Prop} :
    Takes before state good (Parser.outOfFuel : Parser α) :=
  fun _ _ _ ran => nomatch ran

theorem ifSymbol {mark : Symbol} {yes no : Parser β}
    (here : (Mark.symbol mark).Fits state.current → Takes before state good yes)
    (other : state.kind ≠ .symbol mark → Takes before state good no) :
    Takes before state good
      (Parser.atSymbol mark >>= fun found => if found = true then yes else no) := by
  refine look fun found seen => ?_
  cases found with
  | true => exact here (Token.Kind.isSymbol_iff.mp seen)
  | false =>
      refine other fun same => ?_
      rw [Token.Kind.isSymbol_iff.mpr same] at seen
      exact nomatch seen

theorem ifKeyword {word : Keyword} {yes no : Parser β}
    (here : (Mark.keyword word).Fits state.current → Takes before state good yes)
    (other : Takes before state good no) :
    Takes before state good
      (Parser.atKeyword word >>= fun found => if found = true then yes else no) := by
  refine look fun found seen => ?_
  cases found with
  | true => exact here (Token.Kind.isKeyword_iff.mp seen)
  | false => exact other

/-- A token that was expected is taken. -/
theorem expect {wanted : Token.Kind → Bool} {expected : String} {next : Span → Parser β}
    (solid : wanted state.kind = true → state.kind.isSolid = true)
    (rest : ∀ between, wanted state.kind = true →
      Takes (before ++ [state.current]) between good (next state.span)) :
    Takes before state good ((fun state => if wanted state.kind then .ok state.span state.advance
      else Parser.unexpected expected state : Parser Span) >>= next) := by
  have taken : Takes [] state
      (fun tokens span => tokens = [state.current] ∧ span = state.span ∧ wanted state.kind = true)
      (fun state => if wanted state.kind then .ok state.span state.advance
        else Parser.unexpected expected state) := by
    intro ended value after ran
    dsimp only at ran
    split at ran
    · rename_i found
      cases ran
      have split := State.left_of_solid ended (solid found)
      exact ⟨ended.advance, [state.current], split, rfl, rfl, found⟩
    · exact absurd ran unexpected_ne_ok
  refine taken.bind ?_
  rintro _ _ between ⟨rfl, rfl, found⟩
  exact rest between found

theorem expectKeyword {word : Keyword} {next : Span → Parser β}
    (rest : ∀ between, (Mark.keyword word).Fits state.current →
      Takes (before ++ [state.current]) between good (next state.span)) :
    Takes before state good (Parser.expectKeyword word >>= next) := by
  refine expect (fun found => ?_) fun between found =>
    rest between (Token.Kind.isKeyword_iff.mp found)
  rw [Token.Kind.isKeyword_iff.mp found]
  rfl

theorem expectSymbol {mark : Symbol} {next : Span → Parser β} (part : mark ≠ .semicolon)
    (rest : ∀ between, (Mark.symbol mark).Fits state.current →
      Takes (before ++ [state.current]) between good (next state.span)) :
    Takes before state good (Parser.expectSymbol mark >>= next) := by
  refine expect (fun found => ?_) fun between found =>
    rest between (Token.Kind.isSymbol_iff.mp found)
  rw [Token.Kind.isSymbol_iff.mp found]
  cases mark <;> first | rfl | exact absurd rfl part

theorem expectEnd (word : Keyword) :
    Takes [] state (fun tokens _ => LaysAll tokens (blockEnd word)) (Parser.expectEnd word) :=
  expectKeyword fun _ first => expectKeyword fun _ second =>
    ofPure ((LaysAll.mark first).append (.mark second))

theorem expectName :
    Takes [] state (fun tokens ident => LaysAll tokens [.mark (.name ident.name)])
      Parser.expectName := by
  refine look fun found seen => ?_
  split
  · exact look fun span _ => advance (by rw [seen]; rfl) fun _ => newId fun _ _ =>
      ofPure (.mark seen)
  · exact unexpected _

theorem expectMemberName :
    Takes [] state (fun tokens ident => ∃ token, tokens = [token] ∧
      (Mark.field ident.name).Fits token ∧ ident.span = token.span) Parser.expectMemberName := by
  refine look fun span place => look fun found seen => ?_
  split
  · exact advance (by rw [seen]; rfl) fun _ => newId fun _ _ =>
      ofPure ⟨state.current, rfl, Or.inl seen, place.symm⟩
  · rename_i word
    exact advance (by rw [seen]; rfl) fun _ => newId fun _ _ =>
      ofPure ⟨state.current, rfl, Or.inr ⟨word, rfl, seen⟩, place.symm⟩
  · exact unexpected _

/-- The end of a statement only separates. -/
theorem expectStatementEnd {next : Unit → Parser β}
    (rest : ∀ between, Takes before between good (next ())) :
    Takes before state good (Parser.expectStatementEnd >>= next) := by
  have separator (separates : isSeparator state.kind = true) :
      Takes [] state (fun tokens _ => tokens = []) Parser.advance := by
    rintro ended _ _ ⟨⟩
    refine ⟨ended.advance, [], ?_, rfl⟩
    rw [State.left_advance, State.left_step_of_separator separates]
    rfl
  have taken : Takes [] state (fun tokens _ => tokens = []) Parser.expectStatementEnd := by
    refine look fun found seen => ?_
    split
    · exact separator (by rw [seen]; rfl)
    · exact separator (by rw [seen]; rfl)
    · exact ofPure rfl
    · exact unexpected _
  refine taken.bind ?_
  rintro _ _ between rfl
  rw [List.append_nil]
  exact rest between

/-- Behind an item there is a comma, which is taken, or the closing mark. -/
theorem afterItem {close : Symbol} {next : Unit → Parser β}
    (comma : ∀ between, (Mark.symbol .comma).Fits state.current →
      Takes (before ++ [state.current]) between good (next ()))
    (last : state.kind = .symbol close → Takes before state good (next ())) :
    Takes before state good (Parser.afterItem close >>= next) := by
  intro ended result after ran
  obtain ⟨_, between, done, ran⟩ := bind_inv ran
  obtain ⟨_, _, ⟨⟩, done⟩ := bind_inv done
  split at done
  · rename_i found
    have fits : state.kind = .symbol .comma := Token.Kind.isSymbol_iff.mp found
    have solid : state.kind.isSolid = true := by rw [fits]; rfl
    cases done
    exact advance solid (fun between => comma between fits) ended result after ran
  · obtain ⟨_, _, ⟨⟩, done⟩ := bind_inv done
    split at done
    · rename_i found
      cases done
      exact last (Token.Kind.isSymbol_iff.mp found) ended result after ran
    · obtain ⟨_, _, ⟨⟩, done⟩ := bind_inv done
      exact absurd done unexpected_ne_ok

end Takes

end Parser

end MiniScript
