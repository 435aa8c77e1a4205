import MiniScript.Proofs.Parser.LineEnds
import MiniScript.Proofs.Parser.Operators

/-!
# Reading back what is written

A tight tree is read back from the tokens that write it. The argument is an induction
on how the tree is built: for each form it has been shown what the parser makes of its
tokens, wherever it meets them. The steps that suffice for this are bounded by the
number of tokens.
-/

namespace MiniScript.Parser

variable {state : State}

namespace Readable

/-- What a tight tree writes is read back, wherever the parser meets it. -/
theorem ofTight {expr : Expr} (tight : expr.Tight) : Readable expr := by
  induction tight with
  | number => exact .number
  | text => exact .text
  | bool => exact .bool
  | null => exact .null
  | name => exact .name
  | self => exact .self
  | super => exact .super
  | group _ inner => exact .group inner
  | list _ items => exact .list items
  | map _ _ keys values => exact .map keys values
  | member _ level base => exact .member base level
  | index _ level _ base position => exact .index base level position
  | slice _ level _ _ base first last => exact .slice base level first last
  | call _ level _ callee args => exact .call callee level args
  | reference _ level inner => exact .reference inner level
  | power _ level _ signed base exponent => exact .pow base level exponent signed
  | neg _ level other operand => exact .neg operand level other
  | new _ level operand => exact .new operand level
  | not _ level operand => exact .not operand level
  | arithmetic levels _ leftLevel _ rightLevel left right =>
      exact .arithmetic levels left leftLevel right rightLevel
  | comparison comparison _ leftLevel _ rightLevel left right =>
      exact .comparison comparison left leftLevel right rightLevel
  | chain comparisons counted several _ firstLevel _ levels first rest =>
      exact .chain comparisons counted several first firstLevel rest levels
  | logic _ leftLevel _ rightLevel left right => exact .logic left leftLevel right rightLevel

end Readable

section

variable {category : Category}

theorem spread_nothing (position : Nat) (tokens : List Token) :
    spread (fun _ => []) position tokens = tokens := by
  induction tokens generalizing position with
  | nil => rfl
  | cons token rest ih => rw [spread, ih]; rfl

theorem harmless_nothing (record : List Nat) : Harmless (fun _ => []) record :=
  ⟨fun _ _ => nofun, fun _ put => absurd rfl put⟩

theorem trail_length {task : Task category} (suits : task.Suits state.nesting) (fuel : Nat) :
    (task.run fuel state).trail.length ≤ state.passed.length + state.ahead.length := by
  have steady := (Tracks.tasks (harmless_nothing []) (Nat.le_refl fuel) task suits).steady state rfl
  cases reply : task.run fuel state with
  | ok value after =>
      rw [reply] at steady
      exact Nat.le_trans (Nat.le_add_right _ _) (Nat.le_of_eq steady.1.count)
  | failed error stopped =>
      rw [reply] at steady
      exact Nat.le_trans (Nat.le_add_right _ _) (Nat.le_of_eq steady.count)
  | exhausted => exact Nat.zero_le _

/-- What can be read with some number of steps is read with the steps that a parser has. -/
theorem Reads.settled {task : Task category} {value : category.Tree} {after : State}
    (reads : Reads (fun fuel => task.run fuel) state value after) (ended : state.Ended)
    (suits : task.Suits state.nesting) (ready : task.Ready state) {fuel : Nat}
    (enough : 16 * state.ahead.length + task.rank ≤ fuel) :
    ∃ stop, task.run fuel state = .ok value stop ∧ stop.current = after.current ∧
      stop.ahead = after.ahead ∧ stop.nesting = after.nesting := by
  obtain ⟨steps, reads⟩ := reads
  have done : task.run (max fuel steps) state = .ok value after :=
    reads (max fuel steps) (Nat.le_max_right _ _)
  have meets := Task.progress task enough state ⟨ended, Nat.le_refl _⟩ ready
  have tracks := Tracks.tasks (harmless_nothing (task.run fuel state).trail)
    (Nat.le_max_left fuel steps) task suits
  have along := tracks.along state state rfl
    ⟨rfl, (spread_nothing _ _).symm, rfl, rfl, trail_length suits fuel⟩
  cases reply : task.run fuel state with
  | ok found stop =>
      rw [reply] at along
      obtain ⟨other, same, alongside⟩ := along List.suffix_rfl
      rw [done] at same
      cases same
      refine ⟨stop, rfl, alongside.current.symm, ?_, alongside.nesting.symm⟩
      rw [alongside.ahead, spread_nothing]
      rfl
  | failed error stopped =>
      rw [reply] at along
      obtain ⟨other, same⟩ := along List.suffix_rfl
      rw [done] at same
      cases same
  | exhausted =>
      rw [reply] at meets
      exact meets.elim

end

/-- The tokens that write a tight tree, up to the end of the line, are read as that tree. -/
theorem parseExpr_marks {expr : Expr} {state : State} {ending : Token} {rest : List Token}
    (tight : expr.Tight) (outside : state.nesting = 0)
    (written : Spells expr.marks (state.current :: state.ahead) (ending :: rest))
    (lineEnd : ending.kind = .endOfLine) :
    ∃ result : Expr, result.bare = expr.bare ∧
      ∃ enough, (state.Ended → enough ≤ 16 * state.ahead.length + 6) ∧
        ∀ fuel, enough ≤ fuel → ∃ after, parseExpr fuel state = .ok result after ∧
          after.current = ending ∧ after.ahead = rest ∧ after.nesting = 0 := by
  have follows : Follows 0 orLevel (ending :: rest) :=
    ⟨ending, rest, rfl, by rw [lineEnd]; decide, nofun⟩
  obtain ⟨result, after, same, stands, reads⟩ :=
    (Readable.ofTight tight).whole written follows state ⟨rfl, outside⟩
  obtain ⟨current, ahead⟩ := List.cons.inj stands.tokens
  refine ⟨result, same, ?_⟩
  by_cases ended : state.Ended
  · refine ⟨_, fun _ => Nat.le_refl _, fun fuel enough => ?_⟩
    have task : Reads (fun fuel => Task.expr.run fuel) state result after := reads
    obtain ⟨stop, done, sameCurrent, sameAhead, sameNesting⟩ :=
      task.settled ended trivial trivial enough
    exact ⟨stop, done, sameCurrent.trans current, sameAhead.trans ahead,
      sameNesting.trans stands.nesting⟩
  · obtain ⟨enough, reads⟩ := reads
    exact ⟨enough, fun yes => absurd yes ended, fun fuel more =>
      ⟨after, reads fuel more, current, ahead, stands.nesting⟩⟩

/-- `not a < b <= -2 * c and @f(x)[1:]`. -/
theorem parseExpr_marks_mixed :
    let token (kind : Token.Kind) : Token := ⟨kind, default, false⟩
    let name (word : String) : Expr := .name ⟨word, default, 0⟩
    let product : Expr := .binary (.number (-2.0) default 0) .mul default 0 (name "c")
    let chain : Expr :=
      .chain default 0 [name "a", name "b", product] [(.lt, default), (.le, default)]
    let slice : Expr := .slice default 0 (.call default 0 (name "f") [name "x"])
      (some (.number 1.0 default 0)) none
    let expr : Expr :=
      .logic (.unary .not default 0 chain) .and default 0 (.reference default 0 slice)
    let ahead := [token (.name "a"), token (.symbol .less), token (.name "b"),
      token (.symbol .lessEqual), token (.symbol .minus), token (.number (- -2.0)),
      token (.symbol .star), token (.name "c"), token (.keyword .and), token (.symbol .at),
      token (.name "f"), token (.symbol .leftParen), token (.name "x"), token (.symbol .rightParen),
      token (.symbol .leftBracket), token (.number 1.0), token (.symbol .colon),
      token (.symbol .rightBracket), token .endOfLine, token .endOfFile]
    let state := start (token (.keyword .not)) ahead
    expr.Tight ∧ ∃ result : Expr, result.bare = expr.bare ∧
      ∃ enough, (state.Ended → enough ≤ 16 * state.ahead.length + 6) ∧
        ∀ fuel, enough ≤ fuel → ∃ after, parseExpr fuel state = .ok result after ∧
          after.current = token .endOfLine ∧ after.ahead = [token .endOfFile] ∧
          after.nesting = 0 := by
  intro token name product chain slice expr ahead state
  have minus : Number.isNegative (-2.0) = true := by decide +kernel
  have plus : Number.isNegative 1.0 = false := by decide +kernel
  have productTight : product.Tight :=
    .arithmetic (.inr rfl) .number (by rw [Expr.level_number, minus]; decide) .name (by decide)
  have chainTight : chain.Tight := by
    refine .chain (by decide) rfl (by decide) .name (by decide) ?_ ?_
    · simp [productTight, name, Expr.Tight.name]
    · simp [product, name]
      decide
  have sliceTight : slice.Tight :=
    .slice (.call .name (by decide) (by simp [name, Expr.Tight.name])) (by decide)
      (by simp [Expr.Tight.number]) nofun
  have tight : expr.Tight := .logic (.not chainTight (by decide)) (by decide)
    (.reference sliceTight (by decide)) (by decide)
  refine ⟨tight, parseExpr_marks tight rfl ?_ rfl⟩
  have marks : expr.marks = [.keyword .not, .name "a", .symbol .less, .name "b",
      .symbol .lessEqual, .symbol .minus, .number (- -2.0), .symbol .star, .name "c",
      .keyword .and, .symbol .at, .name "f", .attached .leftParen, .name "x", .symbol .rightParen,
      .attached .leftBracket, .number 1.0, .symbol .colon, .symbol .rightBracket] := by
    simp only [expr, chain, product, slice, name, Expr.marks, Expr.marksOfEach, Expr.marksOfBound,
      minus, plus, if_true, Bool.false_eq_true, if_false]
    rfl
  rw [marks]
  -- Each token is what its mark says.
  repeat first | exact rfl | exact ⟨rfl, rfl⟩ | refine ⟨_, _, rfl, ?_, ?_⟩

end MiniScript.Parser
