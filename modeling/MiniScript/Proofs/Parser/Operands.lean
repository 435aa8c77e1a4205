import MiniScript.Proofs.Parser.Reading

/-!
# Operands

An atom is one token, a bracket encloses what stands between it and the bracket that
closes it, and suffixes follow an operand without a blank. Between the brackets the
parser is one bracket deeper, and behind them as deep as before.
-/

namespace MiniScript.Parser

variable {nesting : Nat} {state : State} {token : Token} {tokens rest : List Token}

section

variable {α : Type} {mark : Symbol}

/-- A closing bracket, a comma or a colon. -/
theorem Follows.ofClosing (found : token.kind = .symbol mark) (loose : grip (.symbol mark) = 0) :
    Follows nesting orLevel (token :: rest) := by
  refine ⟨token, rest, rfl, ?_, fun _ lineEnd => ?_⟩
  · rw [found, loose]
    exact Nat.one_pos
  · rw [lineEnd] at found
    cases found

theorem reads_expectSymbol (found : state.kind = .symbol mark) :
    Reads (fun _ => expectSymbol mark) state state.span state.advance := by
  refine .ofOk ?_
  unfold expectSymbol
  rw [if_pos (Token.Kind.isSymbol_iff.2 found)]

/-- Behind the closing bracket one bracket less is open. -/
theorem reads_close {closing : Token} (stands : state.Stands (nesting + 1) (closing :: rest))
    (found : closing.kind = .symbol mark) (clear : Clear nesting rest) :
    ∃ span between, between.Stands nesting rest ∧
      ∀ {next : Span → Nat → Parser α} {value : α} {after : State},
        Reads (next span) between value after →
        Reads (fun fuel => closeBracket >>= fun _ => expectSymbol mark >>= fun span =>
          next span fuel) state value after := by
  have left := stands.closed
  refine ⟨state.span, _, left.advance clear, fun reads => ?_⟩
  exact .move ((reads_expectSymbol (left.kind.trans found)).bind reads)

theorem reads_memberName {word : String} (stands : state.Stands nesting (token :: rest))
    (fits : (Mark.field word).Fits token) (clear : Clear nesting rest) :
    ∃ field after, field.name = word ∧ after.Stands nesting rest ∧
      Reads (fun _ => expectMemberName) state field after := by
  have stopped := (stands.advance clear).numbered
  obtain found | ⟨keyword, spelling, found⟩ := fits
  · exact ⟨⟨word, state.span, state.advance.nextId⟩, _, rfl, stopped,
      .move (.seen (stands.kind.trans found) (.move (.move .ofPure)))⟩
  · exact ⟨⟨keyword.spelling, state.span, state.advance.nextId⟩, _, spelling, stopped,
      .move (.seen (stands.kind.trans found) (.move (.move .ofPure)))⟩

end

namespace Readable

variable {expr : Expr}

theorem ofPrimary (level : expr.level = suffixLevel)
    (begins : ∀ {tokens rest : List Token}, Spells expr.marks tokens rest →
      Opens expr.level tokens)
    (primary : ∀ {nesting : Nat} {tokens rest : List Token}, Spells expr.marks tokens rest →
      Clear nesting rest → ReadsBack parsePrimary expr nesting tokens rest) : Readable expr :=
  .ofSuffixed level begins fun spelled clear => handsOver_suffixes (primary spelled clear)

/-- An expression of one token. -/
theorem ofAtom {mark : Mark} {kind : Token.Kind} (marks : expr.marks = [mark])
    (level : expr.level = suffixLevel)
    (fits : ∀ {token : Token}, mark.Fits token → token.kind = kind)
    (begins : opens suffixLevel kind = true)
    (primary : ∀ state : State, state.kind = kind → ∃ result, result.bare = expr.bare ∧
      Reads parsePrimary state result
        { state.advance with nextId := state.advance.nextId + 1 }) : Readable expr := by
  refine .ofPrimary level (fun spelled => ?_) fun spelled clear => ?_
  · rw [marks] at spelled
    obtain ⟨token, others, rfl, fit, rfl⟩ := spelled
    exact ⟨token, others, rfl, by rw [level, fits fit]; exact begins⟩
  · rw [marks] at spelled
    obtain ⟨token, others, rfl, fit, rfl⟩ := spelled
    intro state stands
    obtain ⟨result, same, reads⟩ := primary state (stands.kind.trans (fits fit))
    exact ⟨result, _, same, (stands.advance clear).numbered, reads⟩

theorem text {value : String} {span : Span} {id : NodeId} : Readable (.text value span id) :=
  .ofAtom rfl rfl (fun fits => fits) rfl fun state found =>
    ⟨.text value state.span _, rfl, .step (.move (.seen found (.move (.move .ofPure))))⟩

theorem bool {value : Bool} {span : Span} {id : NodeId} : Readable (.bool value span id) := by
  cases value with
  | true =>
      exact .ofAtom rfl rfl (fun fits => fits) rfl fun state found =>
        ⟨.bool true state.span _, rfl, .step (.move (.seen found (.move (.move .ofPure))))⟩
  | false =>
      exact .ofAtom rfl rfl (fun fits => fits) rfl fun state found =>
        ⟨.bool false state.span _, rfl, .step (.move (.seen found (.move (.move .ofPure))))⟩

theorem null {span : Span} {id : NodeId} : Readable (.null span id) :=
  .ofAtom rfl rfl (fun fits => fits) rfl fun state found =>
    ⟨.null state.span _, rfl, .step (.move (.seen found (.move (.move .ofPure))))⟩

theorem name {ident : Ident} : Readable (.name ident) :=
  .ofAtom rfl rfl (fun fits => fits) rfl fun state found =>
    ⟨.name ⟨ident.name, state.span, _⟩, rfl, .step (.move (.seen found (.move (.move .ofPure))))⟩

theorem self {span : Span} {id : NodeId} : Readable (.self span id) :=
  .ofAtom rfl rfl (fun fits => fits) rfl fun state found =>
    ⟨.self state.span _, rfl, .step (.move (.seen found (.move (.move .ofPure))))⟩

theorem super {span : Span} {id : NodeId} : Readable (.super span id) :=
  .ofAtom rfl rfl (fun fits => fits) rfl fun state found =>
    ⟨.super state.span _, rfl, .step (.move (.seen found (.move (.move .ofPure))))⟩

theorem group {inner : Expr} {span : Span} {id : NodeId} (readable : Readable inner) :
    Readable (.group span id inner) := by
  refine .ofPrimary rfl ?_ ?_
  · rintro tokens rest ⟨token, others, rfl, fits, _⟩
    exact ⟨token, others, rfl, by rw [show token.kind = _ from fits]; rfl⟩
  · rintro nesting tokens rest ⟨token, others, rfl, fits, spelled⟩ clear state stands
    obtain ⟨closing, closes, written⟩ := spelled.last
    have follows : Follows (nesting + 1) orLevel (closing :: rest) := .ofClosing closes rfl
    have inside := stands.opened.advance (.ofSpells written follows.clear)
    obtain ⟨result, between, same, arrived, reads⟩ := readable.whole written follows _ inside
    obtain ⟨close, after, left, goes⟩ := reads_close arrived closes clear
    refine ⟨.group (state.span.union close) after.nextId result, _, ?_, left.numbered,
      .step (.move (.seen (stands.kind.trans fits) (.move (.move (reads.bind (goes ?_))))))⟩
    · rw [Expr.bare_group, Expr.bare_group, same]
    · exact .move .ofPure

end Readable

section

variable {close : Symbol} {closing : Token} {row : List Mark} {rows : List (List Mark)}

/-- The first of the rows that commas separate, and the step to the next one. -/
theorem reads_row (closes : closing.kind = .symbol close) (loose : grip (.symbol close) = 0)
    (apart : close ≠ .comma)
    (spelled : Spells ([.symbol .comma].intercalate (row :: rows)) tokens (closing :: rest)) :
    ∃ middle, Spells row tokens middle ∧ Follows nesting orLevel middle ∧
      ∀ state : State, state.Stands nesting middle → ∃ after left, after.Stands nesting left ∧
        Spells ([.symbol .comma].intercalate rows) left (closing :: rest) ∧
        Reads (fun _ => afterItem close) state () after := by
  cases rows with
  | nil =>
      rw [List.intercalate_singleton] at spelled
      refine ⟨_, spelled, .ofClosing closes loose, fun state stands => ?_⟩
      have other : state.kind.isSymbol .comma = false := by
        rw [stands.kind, closes]
        simpa [Token.Kind.isSymbol] using apart.symm
      exact ⟨state, _, stands, rfl, .seen other (.seen (stands.isSymbol closes) .ofPure)⟩
  | cons next rows =>
      rw [List.intercalate_cons_cons, List.append_assoc] at spelled
      obtain ⟨comma, left, fits, first, others⟩ := spelled.between
      refine ⟨_, first, .ofClosing fits rfl, fun state stands => ?_⟩
      have clear : Clear nesting left := .ofSpells others (Follows.ofClosing closes loose).clear
      exact ⟨state.advance, left, stands.advance clear, others,
        .seen (stands.isSymbol fits) (.ofOk rfl)⟩

theorem reads_items (closes : closing.kind = .symbol close) (loose : grip (.symbol close) = 0)
    (apart : close ≠ .comma) (never : opens orLevel (.symbol close) = false) {items : List Expr}
    (readable : ∀ item ∈ items, Readable item)
    (spelled : Spells ([.symbol .comma].intercalate (items.map Expr.marks)) tokens
      (closing :: rest)) (stands : state.Stands nesting tokens) (gathered : List Expr) :
    ∃ results after, results.map Expr.bare = items.map Expr.bare ∧
      after.Stands nesting (closing :: rest) ∧
      Reads (fun fuel => parseItems fuel close gathered) state (gathered.reverse ++ results)
        after := by
  induction items generalizing tokens state gathered with
  | nil =>
      cases spelled
      refine ⟨[], state, rfl, stands, .step (.seen (stands.isSymbol closes) ?_)⟩
      rw [List.append_nil]
      exact .ofPure
  | cons item items ih =>
      rw [List.forall_mem_cons] at readable
      obtain ⟨middle, first, follows, goes⟩ := reads_row closes loose apart spelled
      obtain ⟨result, between, same, arrived, reads⟩ := readable.1.whole first follows state stands
      obtain ⟨behind, left, moved, others, after⟩ := goes between arrived
      obtain ⟨results, final, alike, stopped, rest⟩ :=
        ih readable.2 others moved (result :: gathered)
      have other := readable.1.isSymbol first stands never
      refine ⟨result :: results, final, ?_, stopped, .step (.seen other ?_)⟩
      · rw [List.map_cons, List.map_cons, same, alike]
      · rw [List.reverse_cons, List.append_assoc] at rest
        exact reads.bind (after.bind rest)

theorem reads_entries (closes : closing.kind = .symbol .rightBrace) {entries : List (Expr × Expr)}
    (keys : ∀ entry ∈ entries, Readable entry.1) (values : ∀ entry ∈ entries, Readable entry.2)
    (spelled : Spells ([.symbol .comma].intercalate (entries.map Expr.entryMarks)) tokens
      (closing :: rest)) (stands : state.Stands nesting tokens) (gathered : List (Expr × Expr)) :
    ∃ results after, results.map Expr.bareEntry = entries.map Expr.bareEntry ∧
      after.Stands nesting (closing :: rest) ∧
      Reads (fun fuel => parseEntries fuel gathered) state (gathered.reverse ++ results)
        after := by
  induction entries generalizing tokens state gathered with
  | nil =>
      cases spelled
      refine ⟨[], state, rfl, stands, .step (.seen (stands.isSymbol closes) ?_)⟩
      rw [List.append_nil]
      exact .ofPure
  | cons entry entries ih =>
      rw [List.forall_mem_cons] at keys values
      obtain ⟨middle, first, follows, goes⟩ := reads_row closes rfl (by decide) spelled
      obtain ⟨colon, valueTokens, colonFits, keySpelled, valueSpelled⟩ := first.between
      have keyFollows : Follows nesting orLevel (colon :: valueTokens) := .ofClosing colonFits rfl
      obtain ⟨key, atColon, keySame, keyArrived, readsKey⟩ :=
        keys.1.whole keySpelled keyFollows state stands
      have behindColon := keyArrived.advance (.ofSpells valueSpelled follows.clear)
      obtain ⟨value, between, valueSame, arrived, readsValue⟩ :=
        values.1.whole valueSpelled follows _ behindColon
      obtain ⟨behind, left, moved, others, after⟩ := goes between arrived
      obtain ⟨results, final, alike, stopped, rest⟩ :=
        ih keys.2 values.2 others moved ((key, value) :: gathered)
      have other : state.kind.isSymbol .rightBrace = false :=
        keys.1.isSymbol keySpelled stands rfl
      have here := keyArrived.isSymbol colonFits
      refine ⟨(key, value) :: results, final, ?_, stopped, .step (.seen other ?_)⟩
      · rw [List.map_cons, List.map_cons, alike, Expr.bareEntry, Expr.bareEntry, keySame, valueSame]
      · rw [List.reverse_cons, List.append_assoc] at rest
        exact readsKey.bind (.seen here (.move (readsValue.bind (after.bind rest))))

/-- A bound of a slice, which may be missing. -/
theorem reads_bound (closes : closing.kind = .symbol close) (loose : grip (.symbol close) = 0)
    (never : opens orLevel (.symbol close) = false) {bound : Option Expr}
    (readable : ∀ expr ∈ bound, Readable expr)
    (spelled : Spells (Expr.marksOfBound bound) tokens (closing :: rest))
    (stands : state.Stands nesting tokens) :
    ∃ result after, result.map Expr.bare = bound.map Expr.bare ∧
      after.Stands nesting (closing :: rest) ∧
      Reads (fun fuel => parseUnless fuel close) state result after := by
  cases bound with
  | none =>
      cases spelled
      exact ⟨none, state, rfl, stands, .step (.seen (stands.isSymbol closes) .ofPure)⟩
  | some expr =>
      have readable := readable expr rfl
      obtain ⟨result, after, same, arrived, reads⟩ :=
        readable.whole spelled (.ofClosing closes loose) state stands
      have other := readable.isSymbol spelled stands never
      refine ⟨some result, after, ?_, arrived, .step (.seen other (reads.bind .ofPure))⟩
      rw [Option.map_some, Option.map_some, same]

end

namespace Readable

variable {span : Span} {id : NodeId}

/-- A bracket at the beginning. -/
theorem begins_bracket {expr : Expr} {mark : Symbol} {marks : List Mark}
    (written : expr.marks = .symbol mark :: marks) (begins : opens expr.level (.symbol mark) = true)
    {tokens rest : List Token} (spelled : Spells expr.marks tokens rest) :
    Opens expr.level tokens := by
  rw [written] at spelled
  obtain ⟨token, others, rfl, fits, _⟩ := spelled
  exact ⟨token, others, rfl, by rw [show token.kind = _ from fits]; exact begins⟩

theorem list {items : List Expr} (readable : ∀ item ∈ items, Readable item) :
    Readable (.list span id items) := by
  refine .ofPrimary rfl (begins_bracket rfl rfl) ?_
  rintro nesting tokens rest ⟨token, others, rfl, fits, spelled⟩ clear state stands
  obtain ⟨closing, closes, written⟩ := spelled.last
  rw [Expr.marksOfEach_eq] at written
  have follows : Follows (nesting + 1) orLevel (closing :: rest) := .ofClosing closes rfl
  have inside := stands.opened.advance (.ofSpells written follows.clear)
  obtain ⟨results, between, same, arrived, reads⟩ :=
    reads_items closes rfl (by decide) rfl readable written inside []
  obtain ⟨close, after, left, goes⟩ := reads_close arrived closes clear
  refine ⟨.list (state.span.union close) after.nextId results, _, ?_, left.numbered,
    .step (.move (.seen (stands.kind.trans fits) (.move (.move (reads.bind (goes ?_))))))⟩
  · rw [Expr.bare_list, Expr.bare_list, same]
  · exact .move .ofPure

theorem map {entries : List (Expr × Expr)} (keys : ∀ entry ∈ entries, Readable entry.1)
    (values : ∀ entry ∈ entries, Readable entry.2) : Readable (.map span id entries) := by
  refine .ofPrimary rfl (begins_bracket rfl rfl) ?_
  rintro nesting tokens rest ⟨token, others, rfl, fits, spelled⟩ clear state stands
  obtain ⟨closing, closes, written⟩ := spelled.last
  rw [Expr.marksOfEntries_eq] at written
  have follows : Follows (nesting + 1) orLevel (closing :: rest) := .ofClosing closes rfl
  have inside := stands.opened.advance (.ofSpells written follows.clear)
  obtain ⟨results, between, same, arrived, reads⟩ :=
    reads_entries closes keys values written inside []
  obtain ⟨close, after, left, goes⟩ := reads_close arrived closes clear
  refine ⟨.map (state.span.union close) after.nextId results, _, ?_, left.numbered,
    .step (.move (.seen (stands.kind.trans fits) (.move (.move (reads.bind (goes ?_))))))⟩
  · rw [Expr.bare_map, Expr.bare_map, same]
  · exact .move .ofPure

/-- An expression with one suffix more than `base`. -/
theorem ofBase {expr base : Expr} {marks : List Mark} (level : expr.level = suffixLevel)
    (written : expr.marks = base.marks ++ marks) (readable : Readable base)
    (tight : suffixLevel ≤ base.level)
    (suffix : ∀ {nesting : Nat} {tokens rest : List Token}, Spells marks tokens rest →
      Clear nesting rest → ∀ result : Expr, result.bare = base.bare →
        HandsOver (suffixes result) suffixes expr nesting tokens rest) : Readable expr := by
  refine .ofSuffixed level (fun spelled => ?_) fun spelled clear => ?_
  · rw [written] at spelled
    obtain ⟨middle, first, _⟩ := spelled.append
    exact (readable.begins first).mono (by rw [level]; exact tight)
  · rw [written] at spelled
    obtain ⟨middle, first, second⟩ := spelled.append
    intro state stands
    obtain ⟨result, between, same, arrived, goes⟩ :=
      readable.suffix tight first (.ofSpells second clear) state stands
    obtain ⟨suffixed, after, alike, stopped, rest⟩ :=
      suffix second clear result same between arrived
    exact ⟨suffixed, after, alike, stopped, fun value final reads =>
      goes value final (rest value final reads)⟩

theorem member {base : Expr} {field : Ident} (readable : Readable base)
    (tight : suffixLevel ≤ base.level) : Readable (.member base field id) := by
  refine .ofBase rfl rfl readable tight ?_
  rintro nesting tokens rest ⟨⟨_, dotSpan, space⟩, _, rfl, rfl, name, left, rfl, fits, rfl⟩ clear
    result same state stands
  have behindDot := stands.advance ⟨name, left, rfl, fun _ => fits.solid⟩
  obtain ⟨found, after, named, stopped, reads⟩ := reads_memberName behindDot fits clear
  refine ⟨.member result found after.nextId, _, ?_, stopped.numbered, fun value final goes =>
    .step (.seen stands.current (.move (reads.bind (.move goes))))⟩
  rw [Expr.bare_member, Expr.bare_member, same, named]

theorem call {callee : Expr} {args : List Expr} (readable : Readable callee)
    (tight : suffixLevel ≤ callee.level) (arguments : ∀ arg ∈ args, Readable arg) :
    Readable (.call span id callee args) := by
  refine .ofBase rfl rfl readable tight ?_
  rintro nesting tokens rest ⟨⟨_, openSpan, _⟩, others, rfl, ⟨rfl, rfl⟩, spelled⟩ clear result same
    state stands
  obtain ⟨closing, closes, written⟩ := spelled.last
  rw [Expr.marksOfEach_eq] at written
  have follows : Follows (nesting + 1) orLevel (closing :: rest) := .ofClosing closes rfl
  have inside := stands.opened.advance (.ofSpells written follows.clear)
  obtain ⟨results, between, alike, arrived, reads⟩ :=
    reads_items closes rfl (by decide) rfl arguments written inside []
  obtain ⟨close, after, left, goes⟩ := reads_close arrived closes clear
  refine ⟨.call (result.span.union close) after.nextId result results, _, ?_, left.numbered,
    fun value final later => .step (.seen stands.current
      (.move (.move (reads.bind (goes (.move later))))))⟩
  rw [Expr.bare_call, Expr.bare_call, same, alike]

/-- An index or a slice. -/
theorem suffixes_bracket {opening : Token} (found : opening.kind = .symbol .leftBracket)
    (attached : opening.spaceBefore = false) {result suffixed : Expr}
    (stands : state.Stands nesting (opening :: tokens)) {after : State}
    (reads : Reads (fun fuel => parseIndexOrSlice fuel result) state suffixed after) {value : Expr}
    {final : State} (goes : Reads (suffixes suffixed) after value final) :
    Reads (suffixes result) state value final := by
  obtain ⟨_, openSpan, _⟩ := opening
  cases found
  cases attached
  exact .step (.seen stands.current (reads.bind goes))

theorem index {base position : Expr} (readable : Readable base)
    (tight : suffixLevel ≤ base.level) (inner : Readable position) :
    Readable (.index span id base position) := by
  refine .ofBase rfl rfl readable tight ?_
  rintro nesting tokens rest ⟨opening, others, rfl, ⟨found, attached⟩, spelled⟩ clear result same
    state stands
  obtain ⟨closing, closes, written⟩ := spelled.last
  have follows : Follows (nesting + 1) orLevel (closing :: rest) := .ofClosing closes rfl
  have inside := stands.opened.advance (.ofSpells written follows.clear)
  obtain ⟨place, between, alike, arrived, reads⟩ := inner.whole written follows _ inside
  obtain ⟨close, after, left, goes⟩ := reads_close arrived closes clear
  have first : Reads (fun fuel => parseUnless fuel .colon) _ (some place) between :=
    .step (.seen (inner.isSymbol written inside rfl) (reads.bind .ofPure))
  have other : between.kind.isSymbol .colon = false := by
    rw [arrived.kind, closes]
    rfl
  refine ⟨.index (state.span.union close) after.nextId result place, _, ?_, left.numbered,
    fun value final later => suffixes_bracket found attached stands ?_ later⟩
  · rw [Expr.bare_index, Expr.bare_index, same, alike]
  · exact .step (.move (.move (.move (first.bind (.seen other (goes (.move .ofPure)))))))

theorem slice {base : Expr} {first last : Option Expr} (readable : Readable base)
    (tight : suffixLevel ≤ base.level) (firstReadable : ∀ bound ∈ first, Readable bound)
    (lastReadable : ∀ bound ∈ last, Readable bound) :
    Readable (.slice span id base first last) := by
  refine .ofBase rfl rfl readable tight ?_
  rintro nesting tokens rest ⟨opening, others, rfl, ⟨found, attached⟩, spelled⟩ clear result same
    state stands
  obtain ⟨colon, second, colonFits, firstSpelled, spelled⟩ := spelled.between
  obtain ⟨closing, closes, lastSpelled⟩ := spelled.last
  have follows : Follows (nesting + 1) orLevel (closing :: rest) := .ofClosing closes rfl
  have colonFollows : Follows (nesting + 1) orLevel (colon :: second) := .ofClosing colonFits rfl
  have inside := stands.opened.advance (.ofSpells firstSpelled colonFollows.clear)
  obtain ⟨low, atColon, lowSame, arrived, readsLow⟩ :=
    reads_bound colonFits rfl rfl firstReadable firstSpelled inside
  have behindColon := arrived.advance (.ofSpells lastSpelled follows.clear)
  obtain ⟨high, between, highSame, stopped, readsHigh⟩ :=
    reads_bound closes rfl rfl lastReadable lastSpelled behindColon
  obtain ⟨close, after, left, goes⟩ := reads_close stopped closes clear
  refine ⟨.slice (result.span.union close) after.nextId result low high, _, ?_, left.numbered,
    fun value final later => suffixes_bracket found attached stands ?_ later⟩
  · rw [Expr.bare_slice, Expr.bare_slice, same, lowSame, highSame]
  · exact .step (.move (.move (.move (readsLow.bind (.seen (arrived.isSymbol colonFits)
      (.move (readsHigh.bind (goes (.move .ofPure)))))))))

theorem readsBack_number {value : Float} (found : token.kind = .number value)
    (clear : Clear nesting rest) :
    ReadsBack parsePrimary (.number value span id) nesting (token :: rest) rest := by
  intro state stands
  exact ⟨.number value state.span _, _, rfl, (stands.advance clear).numbered,
    .step (.move (.seen (stands.kind.trans found) (.move (.move .ofPure))))⟩

theorem eq_number_of_bare {expr : Expr} {value : Float}
    (same : expr.bare = Expr.number value default 0) : ∃ span id, expr = .number value span id := by
  cases expr with
  | number found span id =>
      cases same
      exact ⟨span, id, rfl⟩
  | _ => cases same

theorem number {value : Float} : Readable (.number value span id) := by
  cases sign : Number.isNegative value with
  | false =>
      have marks : (Expr.number value span id).marks = [.number value] := by
        rw [Expr.marks_number, sign, if_neg Bool.false_ne_true]
      have level : (Expr.number value span id).level = suffixLevel := by
        rw [Expr.level_number, sign, if_neg Bool.false_ne_true]
      refine .ofPrimary level ?_ ?_
      · rw [marks, level]
        rintro tokens rest ⟨token, others, rfl, fits, _⟩
        exact ⟨token, others, rfl, by rw [show token.kind = _ from fits]; rfl⟩
      · rw [marks]
        rintro nesting tokens rest ⟨token, others, rfl, fits, rfl⟩ clear
        exact readsBack_number fits clear
  | true =>
      have marks : (Expr.number value span id).marks = [.symbol .minus, .number (-value)] := by
        rw [Expr.marks_number, sign, if_pos rfl]
      have level : (Expr.number value span id).level = signLevel := by
        rw [Expr.level_number, sign, if_pos rfl]
      refine .ofUnary (by rw [level]; decide) (begins_bracket marks (by rw [level]; rfl)) ?_
      rw [marks]
      rintro nesting tokens rest ⟨minus, _, rfl, fits, digits, left, rfl, found, rfl⟩ follows
        state stands
      have begins : Opens suffixLevel (digits :: left) :=
        ⟨digits, left, rfl, by rw [show digits.kind = _ from found]; rfl⟩
      have primary := @readsBack_number nesting digits left span id _ found follows.clear
      have power := handsOver_power (handsOver_suffixes primary) begins (follows.mono (by decide))
      have unary := readsBack_unary_ofPower power (begins.mono (by decide)) follows
      obtain ⟨result, after, same, arrived, reads⟩ := unary _ (stands.advance begins.clear)
      obtain ⟨place, number, rfl⟩ := eq_number_of_bare same
      refine ⟨.number (- -value) (state.span.union place) number, after, ?_, arrived,
        .step (.move (.seen (stands.kind.trans fits) (.move (reads.bind ?_))))⟩
      · rw [Number.neg_neg]
        rfl
      · exact .ofOk rfl

end Readable

end MiniScript.Parser
