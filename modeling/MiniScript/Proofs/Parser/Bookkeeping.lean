import MiniScript.Proofs.Parser.RoundTrip
import MiniScript.Proofs.Token.Spans

/-!
# The parser gets on

Every procedure of the parser comes to an end. When it has a result, the parser still
stands at one of the tokens, with as many brackets open as before, and if an
expression or a statement has been read, at least one token has been passed. Statements
are begun outside of brackets only, also those in a function literal that stands inside
brackets. The end of the file is never passed, so the tokens bound the steps.
-/

namespace MiniScript

/-- The last token is the end of the file, and no other is. -/
def Token.EndOnce (tokens : List Token) : Prop :=
  ∃ front final, tokens = front ++ [final] ∧ final.kind = .endOfFile ∧
    ∀ token ∈ front, token.kind ≠ .endOfFile

/-- So it is with the tokens of every text. -/
theorem Token.lex_endOnce (source : String) : EndOnce (lex source) := by
  have covers : Covers [] source.toList (lex source) := lexFrom_covers [] source.toList
  obtain ⟨others, last, split, isLast, -, -, plain, -⟩ := covers.ended
  refine ⟨others, last, split, isLast, fun token member same => ?_⟩
  exact Bool.false_ne_true ((plain token member).1.symm.trans (Kind.isEndOfFile_iff.mpr same))

namespace Parser

variable {α : Type} {tokens : List Token} {state after : State}

namespace State

/-- How many tokens have been passed. -/
def position (state : State) : Nat :=
  state.passed.length

/-- The parser stands at one of the tokens and has those behind it ahead. -/
def StandsIn (tokens : List Token) (state : State) : Prop :=
  tokens.drop state.position = state.current :: state.ahead

theorem standsIn_start (token : Token) (ahead : List Token) :
    (start token ahead).StandsIn (token :: ahead) :=
  rfl

/-- The parser stays in the list and does not go back. -/
theorem Precedes.standsIn (precedes : state.Precedes after) (stands : state.StandsIn tokens) :
    after.StandsIn tokens ∧ state.position ≤ after.position := by
  obtain ⟨gone, split, count⟩ := precedes.tokens
  refine ⟨?_, Nat.le.intro count.symm⟩
  rw [StandsIn, position, count, ← List.drop_drop, ← position, stands, split, List.drop_left]

theorem Precedes.position_lt (precedes : state.Precedes after)
    (fewer : after.ahead.length + 1 ≤ state.ahead.length) : state.position < after.position := by
  have count := precedes.count
  rw [position, position]
  omega

namespace StandsIn

theorem split (stands : state.StandsIn tokens) :
    tokens = tokens.take state.position ++ state.current :: state.ahead := by
  rw [← stands, List.take_append_drop]

/-- The current token is the one at the position. -/
theorem current (stands : state.StandsIn tokens) :
    tokens[state.position]? = some state.current := by
  rw [← List.head?_drop, stands, List.head?_cons]

theorem count (stands : state.StandsIn tokens) :
    state.position + (state.ahead.length + 1) = tokens.length := by
  have inside := (List.getElem?_eq_some_iff.mp stands.current).1
  have lengths := congrArg List.length stands
  rw [List.length_drop, List.length_cons] at lengths
  omega

theorem ended (stands : state.StandsIn tokens) (ends : Token.EndOnce tokens) : state.Ended := by
  obtain ⟨front, final, last, atEnd, -⟩ := ends
  have same := congrArg List.getLast? (stands.split.symm.trans last)
  rw [List.getLast?_concat, List.getLast?_append, List.getLast?_cons, Option.some_or,
    Option.some.injEq] at same
  rw [Ended, List.getLastD_eq_getLast?, same]
  exact atEnd

/-- Nothing is ahead of the end of the file. -/
theorem ahead_eq_nil (stands : state.StandsIn tokens) (ends : Token.EndOnce tokens)
    (atEnd : state.kind = .endOfFile) : state.ahead = [] := by
  obtain ⟨front, final, last, -, others⟩ := ends
  rcases List.eq_nil_or_concat state.ahead with none | ⟨more, token, some⟩
  · exact none
  · have split := stands.split
    rw [some, List.concat_eq_append, ← List.cons_append, ← List.append_assoc, last] at split
    refine absurd atEnd (others state.current ?_)
    rw [(List.append_inj' split rfl).1]
    exact List.mem_append_right _ List.mem_cons_self

end StandsIn

end State

/-- What a task with a result has done: what reads an expression or a statement has passed a token,
and what goes on from an expression has done so too, or gives it back where it stands. -/
def Task.Moves (state after : State) : {category : Category} → Task category → category.Tree → Prop
  | _, .binaryRest left _, value =>
      value = left ∧ after.position = state.position ∨ state.position < after.position
  | _, .powerRest base, value =>
      value = base ∧ after.position = state.position ∨ state.position < after.position
  | _, .suffixes base, value =>
      value = base ∧ after.position = state.position ∨ state.position < after.position
  | .expr, _, _ => state.position < after.position
  | .stmt, _, _ => state.position < after.position
  | _, _, _ => state.position ≤ after.position

/-- The reply of a procedure that goes on from `base`: it is given back where it stands, or a token
has been passed. -/
def Reply.Continues (base : Expr) (state : State) (total : Nat) : Reply Expr → Prop
  | .ok value after => value = base ∧ after = state ∨ after.Past 1 total
  | .failed _ _ => True
  | .exhausted => False

/-- A parser that has steps enough to go on from `base`. -/
def GoesOn (base : Expr) (total : Nat) (parser : Parser Expr) : Prop :=
  ∀ state, state.Past 0 total → (parser state).Continues base state total

namespace GoesOn

variable {base : Expr} {total : Nat}

theorem look {look : State → α} {next : α → Parser Expr}
    (rest : ∀ seen, GoesOn base total (next seen)) :
    GoesOn base total ((fun state => .ok (look state) state : Parser α) >>= next) :=
  fun state past => rest (look state) state past

theorem ofPure : GoesOn base total (pure base) :=
  fun _ _ => Or.inl ⟨rfl, rfl⟩

theorem ofPasses {parser : Parser Expr} (passes : Passes 0 total parser) :
    GoesOn base total parser := by
  intro state past
  have meets := passes state past
  cases reply : parser state with
  | ok value after =>
      rw [reply] at meets
      exact Or.inr meets
  | failed error stopped => trivial
  | exhausted =>
      rw [reply] at meets
      exact meets.elim

end GoesOn

section

variable {fuel total : Nat} (enough : 16 * total + 15 ≤ fuel)
include enough

/-- Whatever has been passed, a task with so many steps passes the tokens that it must. -/
theorem Task.passes {category : Category} (task : Task category)
    (ready : ∀ state, task.Ready state) (count : Nat) (state : State)
    (past : state.Past count total) :
    (task.run fuel state).Meets (State.Past (count + task.least) total) := by
  have room := past.room
  have rank := task.rank_lt
  have left : state.Past 0 (total - count) := ⟨past.ended, by omega⟩
  refine (task.progress (by omega) state left (ready state)).mono fun after rest => ⟨rest.ended, ?_⟩
  have := rest.room
  omega

theorem binaryRest_goesOn (left : Expr) (level : Nat) :
    GoesOn left total (parseBinaryRest (fuel + 1) left level) := by
  have onward (value : Expr) : Keeps 1 total (parseBinaryRest fuel value level) :=
    Task.passes enough (.binaryRest value level) (fun _ => trivial) 1
  rw [parseBinaryRest]
  refine .look fun found => ?_
  split
  · exact .ofPure
  · rename_i strength operator _
    split
    · exact .ofPure
    · refine .look fun opSpan => .ofPasses ?_
      have operand (level : Nat) : Passes 0 total (parseRightOperand fuel level) :=
        Task.passes enough (.rightOperand level) (fun _ => trivial) 0
      cases operator with
      | logic op => exact .bind (operand _) fun _ => Keeps.newId.bind fun _ => onward _
      | binary op =>
          dsimp only
          split
          · have chain : Passes 0 total (parseChain fuel left [] [] op opSpan) :=
              Task.passes enough (.chain left [] [] op opSpan) (fun _ => trivial) 0
            exact .bind chain onward
          · exact .bind (operand _) fun _ => Keeps.newId.bind fun _ => onward _

theorem powerRest_goesOn (base : Expr) : GoesOn base total (parsePowerRest (fuel + 1) base) := by
  have exponent : Passes 0 total (parseUnary fuel) :=
    Task.passes enough .unary (fun _ => trivial) 0
  rw [parsePowerRest]
  refine .look fun found => ?_
  split
  · exact .ofPasses (.bindLater .span fun _ => .bindLater .advance fun _ =>
      .bindLater .skipLineEnds fun _ => .bind exponent fun _ => Keeps.newId.bind fun _ => .ofPure _)
  · exact .ofPure

theorem suffixes_goesOn (base : Expr) : GoesOn base total (parseSuffixes (fuel + 1) base) := by
  have onward (value : Expr) : Keeps 1 total (parseSuffixes fuel value) :=
    Task.passes enough (.suffixes value) (fun _ => trivial) 1
  rw [parseSuffixes]
  refine .look fun token => ?_
  split
  · exact .ofPasses (.bindLater .advance fun _ => .bind expectMemberName_passes fun _ =>
      Keeps.newId.bind fun _ => onward _)
  · split
    · exact .ofPure
    · have suffixed : Passes 0 total (parseIndexOrSlice fuel base) :=
        Task.passes enough (.indexOrSlice base) (fun _ => trivial) 0
      exact .ofPasses (.bind suffixed onward)
  · split
    · exact .ofPure
    · have args : Keeps 0 total (parseItems fuel .rightParen []) :=
        Task.passes enough (.items .rightParen []) (fun _ => trivial) 0
      exact .ofPasses (.bindLater .openBracket fun _ => .bindLater .advance fun _ =>
        .bindLater args fun _ => .bindLater .closeBracket fun _ => .bind (.expectSymbol _) fun _ =>
          Keeps.newId.bind fun _ => onward _)
  · exact .ofPure

end

/-- A function literal does not start at the end of the file. -/
theorem parseFunction_of_endOfFile (atEnd : state.kind = .endOfFile) (last : state.ahead = [])
    (fuel : Nat) : ∃ error stopped, parseFunction (fuel + 3) state = .failed error stopped := by
  obtain ⟨⟨_, _, _⟩, _, _, _, _, _⟩ := state
  cases atEnd
  cases last
  exact ⟨_, _, rfl⟩

/-- The result of a procedure, without the state in which it leaves the parser. -/
def Reply.result? : Reply α → Option (Except ParseError α)
  | .ok value _ => some (.ok value)
  | .failed error _ => some (.error error)
  | .exhausted => none

/-- How many brackets were open where the statements were begun, the latest first. -/
def Reply.begun : Reply α → List Nat
  | .ok _ after => after.begun
  | .failed _ stopped => stopped.begun
  | .exhausted => []

namespace Task

variable {category : Category} {task : Task category} {value : category.Tree} {fuel more : Nat}

theorem along (suits : task.Suits state.nesting) (enough : fuel ≤ more) :
    (task.run fuel state).Along (fun _ => []) (task.run fuel state).trail (task.run more state) :=
  (Tracks.tasks (harmless_nothing _) enough task suits).along state state rfl
    ⟨rfl, (spread_nothing _ _).symm, rfl, rfl, trail_length suits fuel⟩

theorem steady (suits : task.Suits state.nesting) (fuel : Nat) :
    (task.run fuel state).Steady state state.nesting :=
  (Tracks.tasks (harmless_nothing []) (Nat.le_refl fuel) task suits).steady state rfl

theorem precedes_of_run (suits : task.Suits state.nesting)
    (done : task.run fuel state = .ok value after) : state.Precedes after := by
  have steady := task.steady suits fuel
  rw [done] at steady
  exact steady.1

/-- Statements are begun outside of brackets, also in what fails. -/
theorem begun_outside (suits : task.Suits state.nesting) (none : state.begun = []) :
    ∀ nesting ∈ (task.run fuel state).begun, nesting = 0 := by
  have outside {final : State} (precedes : state.Precedes final) :
      ∀ nesting ∈ final.begun, nesting = 0 := by
    obtain ⟨starts, begun, outside⟩ := precedes.begun
    rw [begun, none, List.append_nil]
    exact outside
  have steady := task.steady suits fuel
  cases reply : task.run fuel state with
  | ok value after =>
      rw [reply] at steady
      exact outside steady.1
  | failed error stopped =>
      rw [reply] at steady
      exact outside steady
  | exhausted => exact nofun

/-- With more steps the result is the same. -/
theorem result?_eq (suits : task.Suits state.nesting) (enough : fuel ≤ more)
    (ends : task.run fuel state ≠ .exhausted) :
    (task.run more state).result? = (task.run fuel state).result? := by
  have along := task.along suits enough
  cases reply : task.run fuel state with
  | ok value after =>
      rw [reply] at along
      obtain ⟨other, same, -⟩ := along List.suffix_rfl
      rw [same]
      rfl
  | failed error stopped =>
      rw [reply] at along
      obtain ⟨other, same⟩ := along List.suffix_rfl
      rw [same]
      rfl
  | exhausted => exact absurd reply ends

/-- With more steps the same tokens are passed. -/
theorem run_more (suits : task.Suits state.nesting) (enough : fuel ≤ more)
    (done : task.run fuel state = .ok value after) :
    ∃ other, task.run more state = .ok value other ∧ other.ahead = after.ahead := by
  have along := task.along suits enough
  rw [done] at along
  obtain ⟨other, same, alongside⟩ := along List.suffix_rfl
  refine ⟨other, same, ?_⟩
  rw [alongside.ahead, spread_nothing]
  rfl

section

variable (ends : Token.EndOnce tokens) (stands : state.StandsIn tokens)
include ends stands

/-- A task has steps enough, also one that reads a function literal where there is none. -/
theorem meets (task : Task category) (enough : 16 * (state.ahead.length + 1) ≤ fuel) :
    (task.run fuel state).Meets (State.Past task.least state.ahead.length) := by
  have past : state.Past 0 state.ahead.length := ⟨stands.ended ends, Nat.le_refl _⟩
  have rank := task.rank_lt
  have steps : 16 * state.ahead.length + task.rank ≤ fuel := by omega
  have progress := task.progress steps state past
  cases task with
  | function =>
      by_cases atEnd : state.kind = .endOfFile
      · obtain ⟨less, rfl⟩ := Nat.exists_eq_add_of_le' (show 3 ≤ fuel by omega)
        obtain ⟨error, stopped, failed⟩ :=
          parseFunction_of_endOfFile atEnd (stands.ahead_eq_nil ends atEnd) less
        rw [run, failed]
        trivial
      · exact progress atEnd
  | _ => exact progress trivial

/-- What must pass a token is behind it. -/
theorem forward {task : Task category} (suits : task.Suits state.nesting)
    (least : task.least = 1) (done : task.run fuel state = .ok value after) :
    state.position < after.position := by
  have larger := Nat.le_max_left fuel (16 * (state.ahead.length + 1))
  obtain ⟨other, ran, same⟩ := run_more suits larger done
  have meets := meets ends stands task (Nat.le_max_right fuel (16 * (state.ahead.length + 1)))
  rw [ran, least] at meets
  exact (precedes_of_run suits done).position_lt (same ▸ meets.room)

/-- What goes on from an expression gives it back, or is behind a token. -/
theorem forwardOrBack {base : Expr} {task : Task .expr} {value : Expr}
    (suits : task.Suits state.nesting)
    (goesOn : ∀ {total fuel}, 16 * total + 15 ≤ fuel → GoesOn base total (task.run (fuel + 1)))
    (done : task.run fuel state = .ok value after) :
    value = base ∧ after.position = state.position ∨ state.position < after.position := by
  have larger : fuel ≤ max fuel (16 * state.ahead.length + 15) + 1 :=
    Nat.le_succ_of_le (Nat.le_max_left _ _)
  obtain ⟨other, ran, same⟩ := run_more suits larger done
  have continues := goesOn (Nat.le_max_right fuel (16 * state.ahead.length + 15)) state
    ⟨stands.ended ends, Nat.le_refl _⟩
  have precedes := precedes_of_run suits done
  rw [ran] at continues
  rcases continues with ⟨back, rfl⟩ | past
  · have count := precedes.count
    rw [← same] at count
    exact Or.inl ⟨back, Nat.add_right_cancel count⟩
  · exact Or.inr (precedes.position_lt (same ▸ past.room))

theorem moves {task : Task category} (suits : task.Suits state.nesting)
    (done : task.run fuel state = .ok value after) : task.Moves state after value := by
  have onward := ((precedes_of_run suits done).standsIn stands).2
  cases task with
  | binaryRest left level =>
      exact forwardOrBack ends stands suits (fun enough => binaryRest_goesOn enough left level) done
  | powerRest base =>
      exact forwardOrBack ends stands suits (fun enough => powerRest_goesOn enough base) done
  | suffixes base =>
      exact forwardOrBack ends stands suits (fun enough => suffixes_goesOn enough base) done
  | items | optional | entries | paramList | params | default | block | arguments | statements =>
      exact onward
  | _ => exact forward ends stands suits rfl done

end

end Task

/-- The parser comes to an end with every task, stays at one of the tokens, and accounts for its
brackets. -/
structure GetsOn (tokens : List Token) : Prop where
  /-- Every task comes to an end wherever the parser stands. -/
  returns : ∀ {category : Category} (task : Task category) (state : State) (fuel : Nat),
    state.StandsIn tokens → 16 * tokens.length ≤ fuel → task.run fuel state ≠ .exhausted
  /-- When there is a result, the parser stands at one of the tokens, it has passed those that it
  must, as many brackets are open as before, and the statements on the way were begun outside of
  brackets. -/
  results : ∀ {category : Category} (task : Task category) (state after : State) (fuel : Nat)
    (value : category.Tree), state.StandsIn tokens → task.Suits state.nesting →
      task.run fuel state = .ok value after →
        after.StandsIn tokens ∧ tokens[after.position]? = some after.current ∧
          task.Moves state after value ∧ after.nesting = state.nesting ∧
          ∃ starts, after.begun = starts ++ state.begun ∧ ∀ nesting ∈ starts, nesting = 0
  /-- A program is read or is wrong, however many steps there are beyond those that are enough. -/
  program : ∀ token ahead fuel, tokens = token :: ahead → fuelFor tokens ≤ fuel →
    (parseStatements fuel [] (start token ahead)).result? = some (Program.ofTokens tokens) ∧
      ∀ nesting ∈ (parseStatements fuel [] (start token ahead)).begun, nesting = 0

theorem getsOn_of_endOnce (ends : Token.EndOnce tokens) : GetsOn tokens where
  returns task state fuel stands enough exhausted := by
    have count := stands.count
    have steps : 16 * (state.ahead.length + 1) ≤ fuel := by omega
    have meets := Task.meets ends stands task steps
    rw [exhausted] at meets
    exact meets
  results task state after fuel value stands suits done := by
    have precedes := Task.precedes_of_run suits done
    have steady := task.steady suits fuel
    rw [done] at steady
    obtain ⟨standsIn, -⟩ := precedes.standsIn stands
    exact ⟨standsIn, standsIn.current, Task.moves ends stands suits done, steady.2, precedes.begun⟩
  program token ahead fuel split enough := by
    subst split
    have suits : (Task.statements []).Suits (start token ahead).nesting := rfl
    have finished : parseAll token ahead ≠ .exhausted := by
      have steps : 16 * (ahead.length + 1) ≤ fuelFor (token :: ahead) :=
        Nat.mul_le_mul_left 16 (Nat.le_succ _)
      intro exhausted
      have meets := Task.meets ends (State.standsIn_start token ahead) (.statements []) steps
      change (parseAll token ahead).Meets _ at meets
      rw [exhausted] at meets
      exact meets
    refine ⟨(Task.result?_eq suits enough finished).trans ?_, Task.begun_outside suits rfl⟩
    change (parseAll token ahead).result? = some (Program.ofTokens (token :: ahead))
    rw [Program.ofTokens]
    cases reply : parseAll token ahead with
    | ok stmts after => rfl
    | failed error stopped => rfl
    | exhausted => exact absurd reply finished

/-- A function literal in parentheses: its body is read outside of brackets. -/
theorem getsOn_function :
    let token (kind : Token.Kind) : Token := ⟨kind, ⟨0, 1, 1⟩, false⟩
    let tokens := [token (.name "f"), token (.symbol .assign), token (.symbol .leftParen),
      token (.keyword .function), token .endOfLine, token (.keyword .break), token .endOfLine,
      token (.keyword .end), token (.keyword .function), token (.symbol .rightParen),
      token .endOfFile]
    Token.EndOnce tokens ∧ Program.nestings tokens = [0, 0, 1, 0, 0, 0, 0, 0, 1, 0] ∧
      (parseStatements 192 [] (start (token (.name "f")) tokens.tail)).begun = [0, 0] ∧
      GetsOn tokens := by
  intro token tokens
  have ends : Token.EndOnce tokens := by
    refine ⟨tokens.take 10, token .endOfFile, rfl, rfl, ?_⟩
    simp [tokens, token]
  exact ⟨ends, by decide +kernel, by decide +kernel, getsOn_of_endOnce ends⟩

end Parser

end MiniScript
