import MiniScript.Proofs.Parser.Tracking
import MiniScript.Proofs.Parser.Writing

/-!
# Reading what is written
-/

namespace MiniScript.Parser

variable {α β : Type}

/-- With steps enough, the procedure gives the value and leaves the parser in that state. -/
def Reads (procedure : Nat → Parser α) (state : State) (value : α) (after : State) : Prop :=
  ∃ enough, ∀ fuel, enough ≤ fuel → procedure fuel state = .ok value after

namespace Reads

variable {procedure : Nat → Parser α} {next : α → Nat → Parser β}
variable {state between after : State} {value : α} {result : β}

theorem ofOk {parser : Parser α} (done : parser state = .ok value after) :
    Reads (fun _ => parser) state value after :=
  ⟨0, fun _ _ => done⟩

theorem ofPure : Reads (fun _ => (pure value : Parser α)) state value state :=
  ofOk rfl

theorem step (reads : Reads (fun fuel => procedure (fuel + 1)) state value after) :
    Reads procedure state value after := by
  obtain ⟨enough, reads⟩ := reads
  refine ⟨enough + 1, fun fuel more => ?_⟩
  obtain ⟨less, rfl⟩ := Nat.exists_eq_add_of_le' (Nat.le_of_add_left_le more)
  exact reads less (Nat.le_of_succ_le_succ more)

theorem bind (first : Reads procedure state value between)
    (rest : Reads (next value) between result after) :
    Reads (fun fuel => procedure fuel >>= fun value => next value fuel) state result after := by
  obtain ⟨enough, first⟩ := first
  obtain ⟨more, rest⟩ := rest
  refine ⟨max enough more, fun fuel large => ?_⟩
  have begun := first fuel (Nat.le_trans (Nat.le_max_left _ _) large)
  exact (bind_ok begun).trans (rest fuel (Nat.le_trans (Nat.le_max_right _ _) large))

/-- What has been read in two steps can be read as the first of them and the rest. -/
theorem regroup {γ : Type} {further : β → Nat → Parser γ} {final : State} {conclusion : γ}
    (first : Reads (fun fuel => procedure fuel >>= fun value => next value fuel) state result after)
    (rest : Reads (further result) after conclusion final) :
    Reads (fun fuel => procedure fuel >>= fun value => next value fuel >>= fun result =>
      further result fuel) state conclusion final := by
  obtain ⟨enough, reads⟩ := first.bind rest
  refine ⟨enough, fun fuel large => ?_⟩
  rw [← reads fuel large]
  show andThen _ (fun value => andThen _ _) state = andThen (andThen _ _) _ state
  unfold andThen
  cases procedure fuel state <;> rfl

/-- A look at the state, or a move. -/
theorem move {look : State → α} {move : State → State}
    (rest : Reads (next (look state)) (move state) result after) :
    Reads (fun fuel => (fun state => .ok (look state) (move state) : Parser α) >>=
      fun value => next value fuel) state result after :=
  rest

/-- A look that is known. -/
theorem seen {look : State → α} (known : look state = value)
    (rest : Reads (next value) state result after) :
    Reads (fun fuel => (fun state => .ok (look state) state : Parser α) >>=
      fun value => next value fuel) state result after := by
  subst known
  exact rest

end Reads

/-- How tightly a token binds to the operand before it: not at all, or as the operator or suffix
that it begins. -/
def grip (kind : Token.Kind) : Nat :=
  match kind with
  | .symbol .dot => suffixLevel
  | .symbol .leftBracket => suffixLevel
  | .symbol .leftParen => suffixLevel
  | .symbol .caret => powerLevel
  | kind =>
      match infixOf kind with
      | some (strength, _) => strength
      | none => 0

/-- Whether a token can begin an expression of that level. -/
def opens (level : Nat) : Token.Kind → Bool
  | .number _ | .text _ | .name _ => true
  | .keyword word =>
      match word with
      | .true | .false | .null | .self | .super => true
      | .not => level ≤ notLevel
      | .new => level ≤ signLevel
      | _ => false
  | .symbol mark =>
      match mark with
      | .leftParen | .leftBracket | .leftBrace => true
      | .minus => level ≤ signLevel
      | .at => level ≤ referenceLevel
      | _ => false
  | _ => false

/-- The tokens go on, and inside brackets not with a line end. -/
def Clear (nesting : Nat) (tokens : List Token) : Prop :=
  ∃ token others, tokens = token :: others ∧ (0 < nesting → token.kind ≠ .endOfLine)

/-- The tokens go on with one that binds less tightly than that level. -/
def Follows (nesting level : Nat) (tokens : List Token) : Prop :=
  ∃ token others, tokens = token :: others ∧ grip token.kind < level ∧
    (0 < nesting → token.kind ≠ .endOfLine)

/-- The tokens begin with one that can begin an expression of that level. -/
def Opens (level : Nat) (tokens : List Token) : Prop :=
  ∃ token others, tokens = token :: others ∧ opens level token.kind = true

theorem Follows.clear {nesting level : Nat} {tokens : List Token}
    (follows : Follows nesting level tokens) : Clear nesting tokens := by
  obtain ⟨token, others, split, _, solid⟩ := follows
  exact ⟨token, others, split, solid⟩

theorem Follows.mono {nesting level more : Nat} {tokens : List Token}
    (follows : Follows nesting level tokens) (le : level ≤ more) : Follows nesting more tokens := by
  obtain ⟨token, others, split, loose, solid⟩ := follows
  exact ⟨token, others, split, Nat.lt_of_lt_of_le loose le, solid⟩

theorem opens_mono {level less : Nat} {kind : Token.Kind} (le : less ≤ level)
    (begins : opens level kind = true) : opens less kind = true := by
  cases kind with
  | keyword word => cases word <;> simp_all [opens] <;> omega
  | symbol mark => cases mark <;> simp_all [opens] <;> omega
  | _ => exact begins

theorem grip_of_operator {kind : Token.Kind} {strength : Nat} {operator : Infix}
    (found : infixOf kind = some (strength, operator)) : grip kind = strength := by
  unfold grip
  split
  · cases found
  · cases found
  · cases found
  · cases found
  · rw [found]

theorem isSymbol_of_opens {level : Nat} {kind : Token.Kind} {mark : Symbol}
    (begins : opens level kind = true) (never : opens level (.symbol mark) = false) :
    kind.isSymbol mark = false := by
  cases found : kind.isSymbol mark with
  | false => rfl
  | true =>
      rw [Token.Kind.isSymbol_iff.1 found, never] at begins
      cases begins

theorem isSymbol_of_grip {level : Nat} {kind : Token.Kind} {mark : Symbol}
    (loose : grip kind < level) (tight : level ≤ grip (.symbol mark)) :
    kind.isSymbol mark = false := by
  cases found : kind.isSymbol mark with
  | false => rfl
  | true =>
      rw [Token.Kind.isSymbol_iff.1 found] at loose
      exact absurd loose (Nat.not_lt.2 tight)

theorem Opens.mono {level less : Nat} {tokens : List Token} (le : less ≤ level)
    (begins : Opens level tokens) : Opens less tokens := by
  obtain ⟨token, others, split, begins⟩ := begins
  exact ⟨token, others, split, opens_mono le begins⟩

theorem Clear.ofSpells {marks : List Mark} {tokens rest : List Token} {nesting : Nat}
    (spelled : Spells marks tokens rest) (clear : Clear nesting rest) : Clear nesting tokens := by
  cases marks with
  | nil =>
      cases spelled
      exact clear
  | cons mark marks =>
      obtain ⟨token, others, split, fits, _⟩ := spelled
      exact ⟨token, others, split, fun _ => fits.solid⟩

/-- The parser is at these tokens, with that many brackets open. -/
structure State.Stands (nesting : Nat) (tokens : List Token) (state : State) : Prop where
  tokens : state.current :: state.ahead = tokens
  nesting : state.nesting = nesting

namespace State.Stands

variable {nesting : Nat} {token : Token} {tokens rest : List Token} {state : State}

theorem current (stands : state.Stands nesting (token :: rest)) : state.current = token :=
  (List.cons.inj stands.tokens).1

theorem kind (stands : state.Stands nesting (token :: rest)) : state.kind = token.kind :=
  congrArg Token.kind stands.current

theorem isSymbol {mark : Symbol} (stands : state.Stands nesting (token :: rest))
    (found : token.kind = .symbol mark) : state.kind.isSymbol mark = true :=
  Token.Kind.isSymbol_iff.2 (stands.kind.trans found)

theorem advance (stands : state.Stands nesting (token :: rest)) (clear : Clear nesting rest) :
    state.advance.Stands nesting rest := by
  obtain ⟨next, others, rfl, solid⟩ := clear
  have ahead : state.ahead = next :: others := (List.cons.inj stands.tokens).2
  have stepped := step_of_cons ahead
  unfold State.advance
  split
  · rename_i inside
    rw [stands.nesting] at inside
    have stays : Token.Kind.isEndOfLine state.step.kind = false := by
      rw [stepped]
      show Token.Kind.isEndOfLine next.kind = false
      cases found : next.kind with
      | endOfLine => exact absurd found (solid inside)
      | _ => rfl
    rw [skipLineEnds, skip_of_not stays, stepped]
    exact ⟨rfl, stands.nesting⟩
  · rw [stepped]
    exact ⟨rfl, stands.nesting⟩

theorem skipLineEnds (stands : state.Stands nesting (token :: rest))
    (solid : token.kind ≠ .endOfLine) : state.skipLineEnds = state := by
  refine skip_of_not ?_
  rw [stands.kind]
  cases found : token.kind with
  | endOfLine => exact absurd found solid
  | _ => rfl

theorem opened (stands : state.Stands nesting tokens) :
    ({ state with nesting := state.nesting + 1 } : State).Stands (nesting + 1) tokens :=
  ⟨stands.tokens, congrArg (· + 1) stands.nesting⟩

theorem closed (stands : state.Stands (nesting + 1) tokens) :
    ({ state with nesting := state.nesting - 1 } : State).Stands nesting tokens :=
  ⟨stands.tokens, congrArg (· - 1) stands.nesting⟩

theorem numbered (stands : state.Stands nesting tokens) :
    ({ state with nextId := state.nextId + 1 } : State).Stands nesting tokens :=
  ⟨stands.tokens, stands.nesting⟩

theorem begun (stands : state.Stands nesting tokens) :
    ({ state with begun := state.nesting :: state.begun } : State).Stands nesting tokens :=
  ⟨stands.tokens, stands.nesting⟩

end State.Stands

/-- The procedure gives the expression that the tokens up to `rest` write. -/
def ReadsBack (procedure : Nat → Parser Expr) (expr : Expr) (nesting : Nat)
    (tokens rest : List Token) : Prop :=
  ∀ state : State, state.Stands nesting tokens → ∃ result after,
    result.bare = expr.bare ∧ after.Stands nesting rest ∧ Reads procedure state result after

/-- The procedure reads the expression that the tokens up to `rest` write, and leaves it to
`next` to go on from there. -/
def HandsOver (procedure : Nat → Parser Expr) (next : Expr → Nat → Parser Expr) (expr : Expr)
    (nesting : Nat) (tokens rest : List Token) : Prop :=
  ∀ state : State, state.Stands nesting tokens → ∃ result between,
    result.bare = expr.bare ∧ between.Stands nesting rest ∧
      ∀ value after, Reads (next result) between value after → Reads procedure state value after

/-- Operators of at least `level`, after an operand. -/
def operators (level : Nat) (left : Expr) (fuel : Nat) : Parser Expr :=
  parseBinaryRest fuel left level

/-- An operand with all operators of at least `level`. -/
def operand (level fuel : Nat) : Parser Expr := do
  let left ← parseUnary fuel
  operators level left fuel

def exponent (base : Expr) (fuel : Nat) : Parser Expr :=
  parsePowerRest fuel base

def suffixes (base : Expr) (fuel : Nat) : Parser Expr :=
  parseSuffixes fuel base

section

variable {expr : Expr} {nesting level : Nat} {tokens rest : List Token}

theorem HandsOver.readsBack {procedure : Nat → Parser Expr} {next : Expr → Nat → Parser Expr}
    (hands : HandsOver procedure next expr nesting tokens rest)
    (stops : ∀ result between, between.Stands nesting rest →
      Reads (next result) between result between) :
    ReadsBack procedure expr nesting tokens rest := by
  intro state stands
  obtain ⟨result, between, same, arrived, goes⟩ := hands state stands
  exact ⟨result, between, same, arrived, goes result between (stops result between arrived)⟩

theorem ReadsBack.handsOver {procedure : Nat → Parser Expr} {next : Expr → Nat → Parser Expr}
    (reads : ReadsBack procedure expr nesting tokens rest) :
    HandsOver (fun fuel => procedure fuel >>= fun result => next result fuel) next expr nesting
      tokens rest := by
  intro state stands
  obtain ⟨result, between, same, arrived, first⟩ := reads state stands
  exact ⟨result, between, same, arrived, fun value after => first.bind⟩

theorem HandsOver.step {procedure : Nat → Parser Expr} {next : Expr → Nat → Parser Expr}
    (hands : HandsOver (fun fuel => procedure (fuel + 1)) next expr nesting tokens rest) :
    HandsOver procedure next expr nesting tokens rest := by
  intro state stands
  obtain ⟨result, between, same, arrived, goes⟩ := hands state stands
  exact ⟨result, between, same, arrived, fun value after reads => (goes value after reads).step⟩

theorem suffixes_stop (follows : Follows nesting suffixLevel rest) {result : Expr}
    {between : State} (stands : between.Stands nesting rest) :
    Reads (suffixes result) between result between := by
  obtain ⟨token, others, rfl, loose, _⟩ := follows
  have kind : between.current.kind = token.kind := stands.kind
  rw [← kind] at loose
  refine .step (.move ?_)
  split
  · rename_i found
    rw [found] at loose
    exact absurd loose (by decide)
  · rename_i found
    rw [found] at loose
    exact absurd loose (by decide)
  · rename_i found
    rw [found] at loose
    exact absurd loose (by decide)
  · exact .ofPure

theorem exponent_stop (follows : Follows nesting powerLevel rest) {result : Expr}
    {between : State} (stands : between.Stands nesting rest) :
    Reads (exponent result) between result between := by
  obtain ⟨token, others, rfl, loose, _⟩ := follows
  have other : between.kind.isSymbol .caret = false := by
    rw [stands.kind]
    exact isSymbol_of_grip loose (by decide)
  exact .step (.seen other .ofPure)

theorem operators_stop (follows : Follows nesting level rest) {result : Expr}
    {between : State} (stands : between.Stands nesting rest) :
    Reads (operators level result) between result between := by
  obtain ⟨token, others, rfl, loose, _⟩ := follows
  refine .step (.seen stands.kind ?_)
  split
  · exact .ofPure
  · rename_i strength operator found
    rw [grip_of_operator found] at loose
    simp only [if_pos loose]
    exact .ofPure

theorem handsOver_suffixes (reads : ReadsBack parsePrimary expr nesting tokens rest) :
    HandsOver parsePostfix suffixes expr nesting tokens rest :=
  .step reads.handsOver

theorem handsOver_power (hands : HandsOver parsePostfix suffixes expr nesting tokens rest)
    (begins : Opens suffixLevel tokens) (follows : Follows nesting suffixLevel rest) :
    HandsOver parsePower exponent expr nesting tokens rest := by
  have reads := hands.readsBack fun _ _ => suffixes_stop follows
  obtain ⟨token, others, rfl, begins⟩ := begins
  intro state stands
  obtain ⟨result, between, same, arrived, goes⟩ := reads.handsOver state stands
  have other : state.kind.isSymbol .at = false := by
    rw [stands.kind]
    exact isSymbol_of_opens begins (by decide)
  exact ⟨result, between, same, arrived, fun value after done =>
    .step (.seen other (goes value after done))⟩

theorem readsBack_unary (reads : ReadsBack parsePower expr nesting tokens rest)
    (begins : Opens powerLevel tokens) : ReadsBack parseUnary expr nesting tokens rest := by
  obtain ⟨token, others, rfl, begins⟩ := begins
  intro state stands
  obtain ⟨result, after, same, arrived, done⟩ := reads state stands
  refine ⟨result, after, same, arrived, .step (.move (.seen stands.kind ?_))⟩
  split
  · rename_i found
    rw [found] at begins
    exact absurd begins (by decide)
  · rename_i found
    rw [found] at begins
    exact absurd begins (by decide)
  · rename_i found
    rw [found] at begins
    exact absurd begins (by decide)
  · exact done

theorem readsBack_unary_ofPower (hands : HandsOver parsePower exponent expr nesting tokens rest)
    (begins : Opens powerLevel tokens) (follows : Follows nesting powerLevel rest) :
    ReadsBack parseUnary expr nesting tokens rest :=
  readsBack_unary (hands.readsBack fun _ _ => exponent_stop follows) begins

theorem handsOver_operand (reads : ReadsBack parseUnary expr nesting tokens rest) :
    HandsOver (operand level) (operators level) expr nesting tokens rest :=
  reads.handsOver

theorem readsBack_expr (reads : ReadsBack (operand orLevel) expr nesting tokens rest) :
    ReadsBack parseExpr expr nesting tokens rest := by
  intro state stands
  obtain ⟨result, after, same, arrived, done⟩ := reads state stands
  exact ⟨result, after, same, arrived, .step done⟩

theorem Opens.clear (begins : Opens level tokens) : Clear nesting tokens := by
  obtain ⟨token, others, rfl, begins⟩ := begins
  refine ⟨token, others, rfl, fun _ lineEnd => ?_⟩
  rw [lineEnd] at begins
  cases begins

/-- The right operand, from the operator on. -/
theorem readsBack_rightOperand (reads : ReadsBack (operand level) expr nesting tokens rest)
    {least : Nat} (begins : Opens least tokens) (token : Token) :
    ReadsBack (fun fuel => parseRightOperand fuel level) expr nesting (token :: tokens) rest := by
  intro state stands
  have moved := stands.advance begins.clear
  obtain ⟨result, after, same, arrived, done⟩ := reads state.advance moved
  refine ⟨result, after, same, arrived, .step (.move (.move ?_))⟩
  obtain ⟨next, others, rfl, solid⟩ : Clear 1 tokens := begins.clear
  rw [moved.skipLineEnds (solid Nat.one_pos)]
  exact done

end

/-- What follows an expression must bind less tightly than this. -/
def followLevel (level : Nat) : Nat :=
  if level = comparisonLevel then comparisonLevel else min (level + 1) signLevel

/-- An expression is met where operators of at least that level are read. -/
def reachLevel (level : Nat) : Nat :=
  if level = notLevel then signLevel else min level signLevel

theorem followLevel_le_powerLevel (level : Nat) : followLevel level ≤ powerLevel := by
  unfold followLevel
  split
  · decide
  · exact Nat.le_trans (Nat.min_le_right _ _) (by decide)

/-- An operand that binds tightly enough is met. -/
theorem le_reachLevel {level tight : Nat} (le : level ≤ tight) (low : level ≤ signLevel) :
    level ≤ reachLevel tight := by
  unfold reachLevel
  split
  · exact low
  · exact Nat.le_min.2 ⟨le, low⟩

theorem le_followLevel {level tight : Nat} (le : level ≤ tight) (low : level ≤ signLevel) :
    level ≤ followLevel tight := by
  unfold followLevel
  split
  · rename_i same
    rw [← same]
    exact le
  · exact Nat.le_min.2 ⟨Nat.le_succ_of_le le, low⟩

theorem lt_followLevel {level tight : Nat} (le : level ≤ tight) (low : level < signLevel)
    (other : level ≠ comparisonLevel) : level < followLevel tight := by
  unfold followLevel
  split
  · rename_i same
    rw [same] at le
    exact Nat.lt_of_le_of_ne le other
  · exact Nat.lt_min.2 ⟨Nat.lt_succ_of_le le, low⟩

theorem orLevel_le_level (expr : Expr) : orLevel ≤ expr.level := by
  unfold Expr.level
  split
  case h_1 op _ _ _ => cases op <;> decide
  case h_4 op _ _ _ => cases op <;> decide
  case h_7 => split <;> decide
  all_goals decide

/-- What the parser makes of the tokens that write an expression, wherever it meets them. -/
structure Readable (expr : Expr) : Prop where
  begins : ∀ {tokens rest : List Token}, Spells expr.marks tokens rest → Opens expr.level tokens
  spine : ∀ {nesting level : Nat} {tokens rest : List Token}, Spells expr.marks tokens rest →
    Follows nesting (followLevel expr.level) rest → level ≤ reachLevel expr.level →
    HandsOver (operand level) (operators level) expr nesting tokens rest
  unary : ∀ {nesting : Nat} {tokens rest : List Token}, signLevel ≤ expr.level →
    Spells expr.marks tokens rest → Follows nesting powerLevel rest →
    ReadsBack parseUnary expr nesting tokens rest
  power : ∀ {nesting : Nat} {tokens rest : List Token}, referenceLevel ≤ expr.level →
    Spells expr.marks tokens rest → Follows nesting suffixLevel rest →
    HandsOver parsePower exponent expr nesting tokens rest
  suffix : ∀ {nesting : Nat} {tokens rest : List Token}, suffixLevel ≤ expr.level →
    Spells expr.marks tokens rest → Clear nesting rest →
    HandsOver parsePostfix suffixes expr nesting tokens rest

namespace Readable

variable {expr : Expr}

theorem ofSpine (loose : expr.level < signLevel)
    (begins : ∀ {tokens rest : List Token}, Spells expr.marks tokens rest →
      Opens expr.level tokens)
    (spine : ∀ {nesting level : Nat} {tokens rest : List Token}, Spells expr.marks tokens rest →
      Follows nesting (followLevel expr.level) rest → level ≤ reachLevel expr.level →
      HandsOver (operand level) (operators level) expr nesting tokens rest) :
    Readable expr where
  begins := begins
  spine := spine
  unary tight := absurd loose (Nat.not_lt.2 tight)
  power tight := absurd loose (Nat.not_lt.2 (Nat.le_trans (by decide) tight))
  suffix tight := absurd loose (Nat.not_lt.2 (Nat.le_trans (by decide) tight))

theorem ofUnary (loose : expr.level < referenceLevel)
    (begins : ∀ {tokens rest : List Token}, Spells expr.marks tokens rest →
      Opens expr.level tokens)
    (unary : ∀ {nesting : Nat} {tokens rest : List Token}, Spells expr.marks tokens rest →
      Follows nesting powerLevel rest → ReadsBack parseUnary expr nesting tokens rest) :
    Readable expr where
  begins := begins
  spine spelled follows _ :=
    handsOver_operand (unary spelled (follows.mono (followLevel_le_powerLevel _)))
  unary _ := unary
  power tight := absurd loose (Nat.not_lt.2 tight)
  suffix tight := absurd loose (Nat.not_lt.2 (Nat.le_trans (by decide) tight))

theorem ofPower (level : expr.level = referenceLevel)
    (begins : ∀ {tokens rest : List Token}, Spells expr.marks tokens rest →
      Opens expr.level tokens)
    (power : ∀ {nesting : Nat} {tokens rest : List Token}, Spells expr.marks tokens rest →
      Follows nesting suffixLevel rest → HandsOver parsePower exponent expr nesting tokens rest) :
    Readable expr :=
  have unary {nesting : Nat} {tokens rest : List Token} (spelled : Spells expr.marks tokens rest)
      (follows : Follows nesting powerLevel rest) :
      ReadsBack parseUnary expr nesting tokens rest :=
    readsBack_unary_ofPower (power spelled (follows.mono (by decide)))
      ((begins spelled).mono (by rw [level]; decide)) follows
  { begins
    spine := fun spelled follows _ =>
      handsOver_operand (unary spelled (follows.mono (followLevel_le_powerLevel _)))
    unary := fun _ => unary
    power := fun _ => power
    suffix := fun tight => absurd tight (by rw [level]; decide) }

theorem ofSuffixed (level : expr.level = suffixLevel)
    (begins : ∀ {tokens rest : List Token}, Spells expr.marks tokens rest →
      Opens expr.level tokens)
    (suffix : ∀ {nesting : Nat} {tokens rest : List Token}, Spells expr.marks tokens rest →
      Clear nesting rest → HandsOver parsePostfix suffixes expr nesting tokens rest) :
    Readable expr :=
  have power {nesting : Nat} {tokens rest : List Token} (spelled : Spells expr.marks tokens rest)
      (follows : Follows nesting suffixLevel rest) :
      HandsOver parsePower exponent expr nesting tokens rest :=
    handsOver_power (suffix spelled follows.clear)
      ((begins spelled).mono (Nat.le_of_eq level.symm)) follows
  have unary {nesting : Nat} {tokens rest : List Token} (spelled : Spells expr.marks tokens rest)
      (follows : Follows nesting powerLevel rest) :
      ReadsBack parseUnary expr nesting tokens rest :=
    readsBack_unary_ofPower (power spelled (follows.mono (by decide)))
      ((begins spelled).mono (by rw [level]; decide)) follows
  { begins
    spine := fun spelled follows _ =>
      handsOver_operand (unary spelled (follows.mono (followLevel_le_powerLevel _)))
    unary := fun _ => unary
    power := fun _ => power
    suffix := fun _ => suffix }

variable {nesting level : Nat} {tokens rest : List Token}

theorem operand (readable : Readable expr) (spelled : Spells expr.marks tokens rest)
    (reach : level ≤ reachLevel expr.level) (stays : level ≤ followLevel expr.level)
    (follows : Follows nesting level rest) :
    ReadsBack (Parser.operand level) expr nesting tokens rest :=
  (readable.spine spelled (follows.mono stays) reach).readsBack fun _ _ => operators_stop follows

theorem whole (readable : Readable expr) (spelled : Spells expr.marks tokens rest)
    (follows : Follows nesting orLevel rest) : ReadsBack parseExpr expr nesting tokens rest :=
  have tight := orLevel_le_level expr
  readsBack_expr (readable.operand spelled (le_reachLevel tight (by decide))
    (le_followLevel tight (by decide)) follows)

/-- An expression does not begin with a bracket that closes, or another such mark. -/
theorem isSymbol (readable : Readable expr) (spelled : Spells expr.marks tokens rest)
    {state : State} (stands : state.Stands nesting tokens) {mark : Symbol}
    (never : opens orLevel (.symbol mark) = false) : state.kind.isSymbol mark = false := by
  obtain ⟨token, _, rfl, begins⟩ := readable.begins spelled
  rw [stands.kind]
  exact isSymbol_of_opens (opens_mono (orLevel_le_level expr) begins) never

end Readable

end MiniScript.Parser
