import MiniScript.Proofs.Parser.Operands

/-!
# Operators

Signs stand in front of an operand, the other operators between two. An operator that
groups to the left is met after its left operand has been read and handed over; its
right operand ends at the next operator that binds no more tightly. Comparisons in a
row are gathered into one chain.
-/

namespace MiniScript.Parser

variable {nesting : Nat} {state : State} {token : Token} {tokens rest : List Token}

namespace Readable

variable {span : Span} {id : NodeId}

/-- A sign in front of an operand. -/
theorem begins_sign {op : UnaryOp} {operand : Expr}
    (begins : ∀ token : Token, op.mark.Fits token →
      opens (Expr.unary op span id operand).level token.kind = true)
    {tokens rest : List Token}
    (spelled : Spells (Expr.unary op span id operand).marks tokens rest) :
    Opens (Expr.unary op span id operand).level tokens := by
  obtain ⟨token, others, rfl, fits, _⟩ := spelled
  exact ⟨token, others, rfl, begins token fits⟩

theorem unaryNode_neg {operand : Expr} (other : operand.isNumber = false) (opSpan : Span) :
    unaryNode .neg opSpan operand = (do
      let id ← newId
      return .unary .neg opSpan id operand) := by
  cases operand <;> first | rfl | cases other

theorem neg {operand : Expr} (readable : Readable operand) (tight : signLevel ≤ operand.level)
    (other : operand.isNumber = false) : Readable (.unary .neg span id operand) := by
  refine .ofUnary (show signLevel < referenceLevel by decide) (begins_bracket rfl rfl) ?_
  rintro nesting tokens rest ⟨token, others, rfl, fits, spelled⟩ follows state stands
  have moved := stands.advance (.ofSpells spelled follows.clear)
  obtain ⟨result, after, same, arrived, reads⟩ := readable.unary tight spelled follows _ moved
  have alike : result.isNumber = false := by
    rw [← Expr.isNumber_bare, same, Expr.isNumber_bare, other]
  refine ⟨.unary .neg state.span after.nextId result, _, ?_, arrived.numbered,
    .step (.move (.seen (stands.kind.trans fits) (.move (reads.bind ?_))))⟩
  · rw [Expr.bare_unary, Expr.bare_unary, same]
  · simp only [unaryNode_neg alike]
    exact .move .ofPure

theorem new {operand : Expr} (readable : Readable operand) (tight : signLevel ≤ operand.level) :
    Readable (.unary .new span id operand) := by
  refine .ofUnary (show signLevel < referenceLevel by decide)
    (begins_sign fun token fits => ?_) ?_
  · rw [show token.kind = _ from fits]
    rfl
  rintro nesting tokens rest ⟨token, others, rfl, fits, spelled⟩ follows state stands
  have moved := stands.advance (.ofSpells spelled follows.clear)
  obtain ⟨result, after, same, arrived, reads⟩ := readable.unary tight spelled follows _ moved
  refine ⟨.unary .new state.span after.nextId result, _, ?_, arrived.numbered,
    .step (.move (.seen (stands.kind.trans fits) (.move (reads.bind (.move .ofPure)))))⟩
  rw [Expr.bare_unary, Expr.bare_unary, same]

theorem not {operand : Expr} (readable : Readable operand) (tight : notLevel ≤ operand.level) :
    Readable (.unary .not span id operand) := by
  refine .ofSpine (show notLevel < signLevel by decide) (begins_sign fun token fits => ?_)
    fun spelled follows _ => handsOver_operand ?_
  · rw [show token.kind = _ from fits]
    rfl
  obtain ⟨token, others, rfl, fits, spelled⟩ := spelled
  intro state stands
  have moved := stands.advance (.ofSpells spelled follows.clear)
  have reach : comparisonLevel ≤ reachLevel operand.level := by
    unfold reachLevel
    split
    · decide
    · rename_i other
      exact Nat.le_min.2 ⟨Nat.lt_of_le_of_ne tight (Ne.symm other), by decide⟩
  have stays : comparisonLevel ≤ followLevel operand.level := by
    unfold followLevel
    split
    · decide
    · exact Nat.le_min.2 ⟨Nat.succ_le_succ tight, by decide⟩
  obtain ⟨result, after, same, arrived, reads⟩ :=
    readable.operand spelled reach stays follows _ moved
  refine ⟨.unary .not state.span after.nextId result, _, ?_, arrived.numbered,
    .step (.move (.seen (stands.kind.trans fits) (.move (reads.regroup (.move .ofPure)))))⟩
  rw [Expr.bare_unary, Expr.bare_unary, same]

theorem reference {inner : Expr} (readable : Readable inner) (tight : suffixLevel ≤ inner.level) :
    Readable (.reference span id inner) := by
  refine .ofPower rfl (begins_bracket rfl rfl) ?_
  rintro nesting tokens rest ⟨token, others, rfl, fits, spelled⟩ follows state stands
  have moved := stands.advance (.ofSpells spelled follows.clear)
  have reads := (readable.suffix tight spelled follows.clear).readsBack
    fun _ _ => suffixes_stop follows
  obtain ⟨result, after, same, arrived, reads⟩ := reads _ moved
  refine ⟨.reference (state.span.union result.span) after.nextId result, _, ?_, arrived.numbered,
    fun value final goes => .step (.seen (stands.isSymbol fits)
      (.move (.move (reads.bind (.move goes)))))⟩
  rw [Expr.bare_reference, Expr.bare_reference, same]

theorem pow {base exponent : Expr} (readable : Readable base)
    (tight : referenceLevel ≤ base.level) (right : Readable exponent)
    (signed : signLevel ≤ exponent.level) : Readable (.binary base .pow span id exponent) := by
  have begins {tokens rest : List Token}
      (spelled : Spells (Expr.binary base .pow span id exponent).marks tokens rest) :
      Opens powerLevel tokens := by
    obtain ⟨_, first, _⟩ := spelled.append
    exact (readable.begins first).mono (Nat.le_trans (by decide) tight)
  refine .ofUnary (show powerLevel < referenceLevel by decide) begins
    fun {nesting tokens rest} spelled follows =>
    readsBack_unary ?_ (begins spelled)
  obtain ⟨caret, middle, fits, first, second⟩ := spelled.between
  intro state stands
  have caretFollows : Follows nesting suffixLevel (caret :: middle) :=
    ⟨caret, middle, rfl, by rw [show caret.kind = _ from fits]; decide, fun _ => fits.solid⟩
  obtain ⟨left, atCaret, leftSame, arrived, goes⟩ :=
    readable.power tight first caretFollows state stands
  have moved := arrived.advance (.ofSpells second follows.clear)
  obtain ⟨result, after, same, stopped, reads⟩ := right.unary signed second follows _ moved
  refine ⟨.binary left .pow atCaret.span after.nextId result, _, ?_, stopped.numbered,
    goes _ _ (.step (.seen (arrived.isSymbol fits) (.move (.move (.move ?_)))))⟩
  · rw [Expr.bare_binary, Expr.bare_binary, leftSame, same]
  · obtain ⟨next, others, rfl, solid⟩ : Clear 1 middle := (right.begins second).clear
    rw [moved.skipLineEnds (solid Nat.one_pos)]
    exact reads.bind (.move .ofPure)

section

variable {left right : Expr} {strength level : Nat} {between after final : State} {value : Expr}

theorem operators_binary {op : BinaryOp} (found : infixOf state.kind = some (strength, .binary op))
    (other : op.isComparison = false) (low : level ≤ strength)
    (reads : Reads (fun fuel => parseRightOperand fuel (strength + 1)) state right after)
    (goes : Reads (operators level (.binary left op state.span after.nextId right))
      { after with nextId := after.nextId + 1 } value final) :
    Reads (operators level left) state value final := by
  refine .step (.move ?_)
  simp only [found, if_neg (Nat.not_lt.2 low), other, if_neg Bool.false_ne_true]
  exact .move (reads.bind (.move goes))

theorem operators_logic {op : LogicOp} (found : infixOf state.kind = some (strength, .logic op))
    (low : level ≤ strength)
    (reads : Reads (fun fuel => parseRightOperand fuel (strength + 1)) state right after)
    (goes : Reads (operators level (.logic left op state.span after.nextId right))
      { after with nextId := after.nextId + 1 } value final) :
    Reads (operators level left) state value final := by
  refine .step (.move ?_)
  simp only [found, if_neg (Nat.not_lt.2 low)]
  exact .move (reads.bind (.move goes))

theorem operators_comparison {op : BinaryOp} {chain : Expr}
    (found : infixOf state.kind = some (strength, .binary op)) (comparison : op.isComparison = true)
    (low : level ≤ strength)
    (reads : Reads (fun fuel => parseChain fuel left [] [] op state.span) state chain after)
    (goes : Reads (operators level chain) after value final) :
    Reads (operators level left) state value final := by
  refine .step (.move ?_)
  simp only [found, if_neg (Nat.not_lt.2 low), comparison, if_true]
  exact .move (reads.bind goes)

end

/-- The levels of the operators that group to the left. -/
def leftLevels : List Nat :=
  [orLevel, andLevel, sumLevel, productLevel]

theorem leftLevels_bounds : ∀ strength ∈ leftLevels, strength < signLevel ∧
    strength ≠ comparisonLevel ∧ reachLevel strength = strength ∧
    followLevel strength = strength + 1 := by
  decide

/-- An operator that groups to the left. Its left operand is read first and hands over to it. -/
theorem ofOperator {node : Expr → Span → NodeId → Expr → Expr} {op : Mark} {strength : Nat}
    {left right : Expr}
    (written : (node left span id right).marks = left.marks ++ op :: right.marks)
    (level : (node left span id right).level = strength)
    (levels : strength ∈ leftLevels)
    (alike : ∀ {first second : Expr} (span' : Span) (id' : NodeId), first.bare = left.bare →
      second.bare = right.bare →
        (node first span' id' second).bare = (node left span id right).bare)
    (strong : ∀ {token : Token}, op.Fits token → grip token.kind = strength)
    (goes : ∀ {level : Nat} {token : Token} {first second value : Expr} {state after final : State},
      op.Fits token → state.kind = token.kind → level ≤ strength →
      Reads (fun fuel => parseRightOperand fuel (strength + 1)) state second after →
      Reads (operators level (node first state.span after.nextId second))
        { after with nextId := after.nextId + 1 } value final →
      Reads (operators level first) state value final)
    (leftReadable : Readable left) (leftTight : strength ≤ left.level)
    (rightReadable : Readable right) (rightTight : strength < right.level) :
    Readable (node left span id right) := by
  obtain ⟨low, other, reach, stays⟩ := leftLevels_bounds strength levels
  refine .ofSpine (by rw [level]; exact low) (fun spelled => ?_) fun spelled follows met => ?_
  · rw [written] at spelled
    obtain ⟨_, first, _⟩ := spelled.append
    exact (leftReadable.begins first).mono (by rw [level]; exact leftTight)
  rw [written] at spelled
  rw [level, stays] at follows
  rw [level, reach] at met
  obtain ⟨token, middle, fits, first, second⟩ := spelled.between
  intro state stands
  have opFollows : Follows state.nesting (followLevel left.level) (token :: middle) :=
    ⟨token, middle, rfl, by rw [strong fits]; exact lt_followLevel leftTight low other,
      fun _ => fits.solid⟩
  rw [stands.nesting] at opFollows
  obtain ⟨result, between, same, arrived, hands⟩ := leftReadable.spine first opFollows
    (le_reachLevel (Nat.le_trans met leftTight) (Nat.le_of_lt (Nat.lt_of_le_of_lt met low)))
    state stands
  have operand := rightReadable.operand second (le_reachLevel rightTight low)
    (le_followLevel rightTight low) follows
  obtain ⟨found, after, foundSame, stopped, reads⟩ :=
    readsBack_rightOperand operand (rightReadable.begins second) token between arrived
  exact ⟨node result between.span after.nextId found, _, alike _ _ same foundSame,
    stopped.numbered, fun value final done =>
      hands value final (goes fits arrived.kind met reads done)⟩

theorem arithmetic {op : BinaryOp} {left right : Expr}
    (levels : op.level = sumLevel ∨ op.level = productLevel)
    (leftReadable : Readable left) (leftTight : op.level ≤ left.level)
    (rightReadable : Readable right) (rightTight : op.level < right.level) :
    Readable (.binary left op span id right) := by
  have notPower : op ≠ .pow := by
    rintro rfl
    revert levels
    decide
  have other : op.isComparison = false := by
    cases op <;> first | rfl | (revert levels; decide)
  have found {token : Token} (fits : op.mark.Fits token) := BinaryOp.infixOf_of_fits fits notPower
  have grouped : op.level ∈ leftLevels := by
    obtain level | level := levels <;> (rw [level]; decide)
  exact @ofOperator span id (fun left span id right => .binary left op span id right) op.mark
    op.level left right rfl rfl grouped
    (fun _ _ first second => by rw [Expr.bare_binary, Expr.bare_binary, first, second])
    (fun fits => grip_of_operator (found fits))
    (fun fits kind low reads done => operators_binary (kind ▸ found fits) other low reads done)
    leftReadable leftTight rightReadable rightTight

theorem logic {op : LogicOp} {left right : Expr}
    (leftReadable : Readable left) (leftTight : op.level ≤ left.level)
    (rightReadable : Readable right) (rightTight : op.level < right.level) :
    Readable (.logic left op span id right) := by
  have found {token : Token} (fits : op.mark.Fits token) := LogicOp.infixOf_of_fits fits
  have grouped : op.level ∈ leftLevels := by cases op <;> decide
  exact @ofOperator span id (fun left span id right => .logic left op span id right) op.mark
    op.level left right rfl rfl grouped
    (fun _ _ first second => by rw [Expr.bare_logic, Expr.bare_logic, first, second])
    (fun fits => grip_of_operator (found fits))
    (fun fits kind low reads done => operators_logic (kind ▸ found fits) low reads done)
    leftReadable leftTight rightReadable rightTight

theorem infixOf_comparison {op : BinaryOp} (comparison : op.isComparison = true)
    (fits : op.mark.Fits token) :
    infixOf token.kind = some (comparisonLevel, .binary op) := by
  have other : op ≠ .pow := by
    rintro rfl
    cases comparison
  rw [BinaryOp.infixOf_of_fits fits other, BinaryOp.level_of_isComparison comparison]

theorem follows_comparison {op : BinaryOp} (comparison : op.isComparison = true)
    (fits : op.mark.Fits token) {level : Nat} (tight : comparisonLevel < level) :
    Follows nesting level (token :: rest) := by
  refine ⟨token, rest, rfl, ?_, fun _ => fits.solid⟩
  rw [grip_of_operator (infixOf_comparison comparison fits)]
  exact tight

theorem comparisonOf_of_fits {op : BinaryOp} (comparison : op.isComparison = true)
    (fits : op.mark.Fits token) : comparisonOf token.kind = some op := by
  rw [comparisonOf, infixOf_comparison comparison fits]
  exact if_pos comparison

theorem comparisonOf_of_grip {kind : Token.Kind} (loose : grip kind < comparisonLevel) :
    comparisonOf kind = none := by
  unfold comparisonOf
  split
  · rename_i strength op found
    rw [if_neg]
    intro comparison
    rw [grip_of_operator found] at loose
    unfold infixOf at found
    split at found <;> cases found <;> revert loose comparison <;> decide
  · rfl

section

variable {first operand value : Expr} {gathered : List Expr} {ops : List (BinaryOp × Span)}
variable {op : BinaryOp} {opSpan : Span} {after final : State}

theorem chain_ends (reads : Reads (fun fuel => parseRightOperand fuel sumLevel) state operand after)
    (none : comparisonOf after.kind = none)
    (goes : Reads (fun _ => chainNode first (operand :: gathered).reverse
      ((op, opSpan) :: ops).reverse) after value final) :
    Reads (fun fuel => parseChain fuel first gathered ops op opSpan) state value final := by
  refine .step (reads.bind (.move ?_))
  simp only [none]
  exact goes

theorem chain_continues {next : BinaryOp}
    (reads : Reads (fun fuel => parseRightOperand fuel sumLevel) state operand after)
    (found : comparisonOf after.kind = some next)
    (goes : Reads (fun fuel => parseChain fuel first (operand :: gathered) ((op, opSpan) :: ops)
      next after.span) after value final) :
    Reads (fun fuel => parseChain fuel first gathered ops op opSpan) state value final := by
  refine .step (reads.bind (.move ?_))
  simp only [found]
  exact .move goes

end

/-- The comparisons from the operator at which the parser stands, up to the end of the chain. -/
theorem reads_links {first item : Expr} {items : List Expr} {op : BinaryOp}
    {links : List (BinaryOp × Span)} (counted : links.length = items.length)
    (comparisons : ∀ link ∈ links, link.1.isComparison = true)
    (readable : ∀ expr ∈ item :: items, Readable expr)
    (tight : ∀ expr ∈ item :: items, comparisonLevel < expr.level)
    (spelled : Spells (linked ((item :: items).map Expr.marks) (links.map fun link => link.1.mark))
      tokens rest) (follows : Follows nesting comparisonLevel rest)
    (stands : state.Stands nesting (token :: tokens)) (gathered : List Expr)
    (ops : List (BinaryOp × Span)) :
    ∃ results found after, results.map Expr.bare = (item :: items).map Expr.bare ∧
      found.map Expr.bareLink = (op, default) :: links.map Expr.bareLink ∧
      after.Stands nesting rest ∧ ∀ {value : Expr} {final : State},
        Reads (fun _ => chainNode first (gathered.reverse ++ results) (ops.reverse ++ found)) after
          value final →
        Reads (fun fuel => parseChain fuel first gathered ops op state.span) state value final := by
  induction items generalizing item op links token tokens state gathered ops with
  | nil =>
      obtain rfl := List.eq_nil_of_length_eq_zero counted
      rw [List.forall_mem_singleton] at readable tight
      have operand := readable.operand spelled (le_reachLevel tight (by decide))
        (le_followLevel tight (by decide)) (follows.mono (by decide))
      obtain ⟨result, after, same, arrived, reads⟩ :=
        readsBack_rightOperand operand (readable.begins spelled) token state stands
      obtain ⟨behind, others, rfl, loose, _⟩ := follows
      refine ⟨[result], [(op, state.span)], after, by rw [List.map_singleton, same]; rfl, rfl,
        arrived, fun goes => chain_ends reads (comparisonOf_of_grip ?_) ?_⟩
      · rw [arrived.kind]
        exact loose
      · rw [List.reverse_cons, List.reverse_cons]
        exact goes
  | cons next items ih =>
      obtain ⟨link, links, rfl⟩ := List.exists_cons_of_length_eq_add_one counted
      rw [List.forall_mem_cons] at readable tight comparisons
      obtain ⟨comparison, middle, fits, one, others⟩ := spelled.between
      have ends : Follows nesting sumLevel (comparison :: middle) :=
        follows_comparison comparisons.1 fits (by decide)
      have operand := readable.1.operand one (le_reachLevel tight.1 (by decide))
        (le_followLevel tight.1 (by decide)) ends
      obtain ⟨result, after, same, arrived, reads⟩ :=
        readsBack_rightOperand operand (readable.1.begins one) token state stands
      obtain ⟨results, found, final, alike, linksAlike, stopped, goes⟩ :=
        @ih after comparison middle next link.1 links (Nat.succ.inj counted) comparisons.2
          readable.2 tight.2 others arrived (result :: gathered) ((op, state.span) :: ops)
      refine ⟨result :: results, (op, state.span) :: found, final, ?_, ?_, stopped, fun later =>
        chain_continues reads ?_ (goes ?_)⟩
      · rw [List.map_cons, same, alike]
        rfl
      · rw [List.map_cons, linksAlike]
        rfl
      · rw [arrived.kind]
        exact comparisonOf_of_fits comparisons.1 fits
      · rw [List.reverse_cons, List.append_assoc, List.reverse_cons, List.append_assoc]
        exact later

/-- One comparison or more, after their first operand. -/
theorem ofComparisons {expr first item : Expr} {items : List Expr} {op : BinaryOp}
    {links : List (BinaryOp × Span)}
    (written : expr.marks = first.marks ++
      op.mark :: linked ((item :: items).map Expr.marks) (links.map fun link => link.1.mark))
    (level : expr.level = comparisonLevel) (comparison : op.isComparison = true)
    (counted : links.length = items.length)
    (comparisons : ∀ link ∈ links, link.1.isComparison = true)
    (firstReadable : Readable first) (firstTight : comparisonLevel < first.level)
    (readable : ∀ expr ∈ item :: items, Readable expr)
    (tight : ∀ expr ∈ item :: items, comparisonLevel < expr.level)
    (node : ∀ (begun : Expr) (results : List Expr) (found : List (BinaryOp × Span)) (state : State),
      begun.bare = first.bare → results.map Expr.bare = (item :: items).map Expr.bare →
      found.map Expr.bareLink = (op, default) :: links.map Expr.bareLink →
      ∃ chain : Expr, chain.bare = expr.bare ∧
        Reads (fun _ => chainNode begun results found) state chain
          { state with nextId := state.nextId + 1 }) : Readable expr := by
  refine .ofSpine (by rw [level]; decide) (fun spelled => ?_) fun spelled follows met => ?_
  · rw [written] at spelled
    obtain ⟨_, first, _⟩ := spelled.append
    exact (firstReadable.begins first).mono (by rw [level]; exact Nat.le_of_lt firstTight)
  rw [written] at spelled
  rw [level] at follows met
  have low := Nat.le_trans met (by decide : reachLevel comparisonLevel ≤ comparisonLevel)
  obtain ⟨token, middle, fits, one, others⟩ := spelled.between
  intro state stands
  obtain ⟨begun, between, same, arrived, hands⟩ := firstReadable.spine one
    (follows_comparison comparison fits (le_followLevel firstTight (by decide)))
    (le_reachLevel (Nat.le_trans low (Nat.le_of_lt firstTight)) (Nat.le_trans low (by decide)))
    state stands
  obtain ⟨results, found, after, alike, links, stopped, goes⟩ :=
    reads_links counted comparisons readable tight others follows arrived [] []
  obtain ⟨chain, chainSame, reads⟩ := node begun results found after same alike links
  have infixed := infixOf_comparison comparison fits
  rw [← arrived.kind] at infixed
  exact ⟨chain, _, chainSame, stopped.numbered, fun value final done =>
    hands value final (operators_comparison infixed comparison low (goes reads) done)⟩

theorem comparison {op : BinaryOp} {left right : Expr} (comparison : op.isComparison = true)
    (leftReadable : Readable left) (leftTight : comparisonLevel < left.level)
    (rightReadable : Readable right) (rightTight : comparisonLevel < right.level) :
    Readable (.binary left op span id right) := by
  refine @ofComparisons _ left right [] op [] rfl
    (BinaryOp.level_of_isComparison comparison) comparison rfl nofun leftReadable leftTight
    (List.forall_mem_singleton.2 rightReadable) (List.forall_mem_singleton.2 rightTight) ?_
  intro begun results found state same alike links
  obtain ⟨result, rfl, resultSame⟩ := List.map_eq_singleton_iff.1 alike
  obtain ⟨⟨other, opSpan⟩, rfl, linkSame⟩ := List.map_eq_singleton_iff.1 links
  cases linkSame
  refine ⟨.binary begun other opSpan state.nextId result, ?_, .move .ofPure⟩
  rw [Expr.bare_binary, Expr.bare_binary, same, resultSame]

theorem chain {first : Expr} {items : List Expr} {ops : List (BinaryOp × Span)}
    (comparisons : ∀ op ∈ ops, op.1.isComparison = true) (counted : ops.length = items.length)
    (several : 2 ≤ items.length) (firstReadable : Readable first)
    (firstTight : comparisonLevel < first.level) (readable : ∀ item ∈ items, Readable item)
    (tight : ∀ item ∈ items, comparisonLevel < item.level) :
    Readable (.chain span id (first :: items) ops) := by
  match items, ops, several, counted with
  | one :: two :: items, op :: other :: ops, _, counted =>
      rw [List.forall_mem_cons] at comparisons
      have marks : (Expr.chain span id (first :: one :: two :: items) (op :: other :: ops)).marks =
          linked ((first :: one :: two :: items).map Expr.marks)
            ((op :: other :: ops).map fun op => op.1.mark) := by
        rw [← Expr.marksOfEach_eq]
        rfl
      refine ofComparisons marks rfl comparisons.1
        (Nat.succ.inj counted) comparisons.2 firstReadable firstTight readable tight ?_
      intro begun results found state same alike links
      obtain ⟨result, others, rfl, resultSame, othersAlike⟩ := List.map_eq_cons_iff.1 alike
      obtain ⟨second, rest, rfl, _, _⟩ := List.map_eq_cons_iff.1 othersAlike
      refine ⟨.chain _ state.nextId (begun :: result :: second :: rest) found, ?_, .move .ofPure⟩
      rw [Expr.bare_chain, Expr.bare_chain, List.map_cons, alike, links,
        same]
      rfl

end Readable

end MiniScript.Parser
