import MiniScript.Proofs.Parser.Bookkeeping
import MiniScript.Proofs.Parser.Taking

/-!
# Every node is in its place

The tokens that a procedure of the parser takes lay out the tree that it gives. So the
tokens of a text that parses lay out its statements, and every expression and every
statement in them is in its place: an expression starts with its first token, on the
line of that token, covers all that is within it and does not reach beyond the text,
and a statement is on the line of its first token.
-/

namespace MiniScript

namespace Parser

open Compiler

variable {β : Type} {tokens more before : List Token} {state between : State}

/-- The mark of an operator between two operands. -/
def Infix.mark : Infix → Mark
  | .logic op => op.mark
  | .binary op => op.mark

theorem Infix.fits_of_infixOf {token : Token} {level : Nat} {operator : Infix}
    (found : infixOf token.kind = some (level, operator)) :
    operator.mark.Fits token ∧ token.kind.isSolid = true := by
  unfold infixOf at found
  split at found
  case h_15 => exact nomatch found
  all_goals
    rename_i same
    cases found
    exact ⟨same, by rw [same]; rfl⟩

theorem fits_of_comparisonOf {token : Token} {op : BinaryOp}
    (found : comparisonOf token.kind = some op) : op.mark.Fits token := by
  unfold comparisonOf at found
  split at found
  · rename_i other infixed
    split at found
    · cases found
      exact (Infix.fits_of_infixOf infixed).1
    · exact nomatch found
  · exact nomatch found

theorem symbol_of_assignmentOf {kind : Token.Kind} {op : Option BinaryOp}
    (found : assignmentOf kind = some op) :
    ∃ mark, kind = .symbol mark ∧ assignmentOf (.symbol mark) = some op ∧ kind.isSolid = true := by
  unfold assignmentOf at found
  split at found
  case h_8 => exact nomatch found
  all_goals exact ⟨_, rfl, found, rfl⟩

def defaultPieces (default : Option Expr) : List Piece :=
  default.toList.flatMap fun value => [.mark (.symbol .assign), .expr value]

theorem paramPieces_eq (id : NodeId) (ident : Ident) (default : Option Expr) :
    paramPieces (.mk id ident default) =
      [Piece.mark (.name ident.name)] ++ defaultPieces default := by
  cases default <;> rfl

/-- The tokens lay out what has been added to the items gathered in reverse, with commas between
them. At the closing mark nothing is added. -/
def Enumerated (row : β → List Piece) (close : Symbol) (gathered : List β) (state : State)
    (tokens : List Token) (value : List β) : Prop :=
  ∃ new pieces, value = gathered.reverse ++ new ∧ (state.kind = .symbol close → new = []) ∧
    Series (new.map row) pieces ∧ LaysAll tokens pieces

namespace Enumerated

variable {row : β → List Piece} {close : Symbol} {gathered value : List β} {item : β}

theorem none : Enumerated row close gathered state [] gathered.reverse :=
  ⟨[], [], (List.append_nil _).symm, fun _ => rfl, .none, .nil⟩

/-- An item and a comma in front of what is added later. -/
theorem comma {token : Token} (rest : Enumerated row close (item :: gathered) between more value)
    (lays : LaysAll tokens (row item)) (fits : (Mark.symbol .comma).Fits token)
    (other : state.kind ≠ .symbol close) :
    Enumerated row close gathered state (tokens ++ [token] ++ more) value := by
  obtain ⟨new, pieces, rfl, -, series, laid⟩ := rest
  refine ⟨item :: new, _, ?_, fun same => absurd same other, .cons (row item) series,
    (lays.append (.mark fits)).append laid⟩
  rw [List.reverse_cons, List.append_assoc]
  rfl

/-- The last item, with no comma behind it. -/
theorem last (rest : Enumerated row close (item :: gathered) between more value)
    (lays : LaysAll tokens (row item)) (closes : between.kind = .symbol close)
    (other : state.kind ≠ .symbol close) :
    Enumerated row close gathered state (tokens ++ more) value := by
  obtain ⟨new, pieces, rfl, none, series, laid⟩ := rest
  obtain rfl := none closes
  cases series
  refine ⟨[item], row item, ?_, fun same => absurd same other, .last (row item), ?_⟩
  · rw [List.append_nil, List.reverse_cons]
  · have all := lays.append laid
    rwa [List.append_nil] at all

/-- Behind an item the loop goes on. -/
theorem takes {next : Parser (List β)} (other : state.kind ≠ .symbol close)
    (lays : LaysAll tokens (row item))
    (onward : ∀ state, Takes [] state (Enumerated row close (item :: gathered) state) next) :
    Takes tokens between (Enumerated row close gathered state)
      (afterItem close >>= fun _ => next) :=
  .afterItem
    (fun later fits => (onward later).tail fun _ _ rest => rest.comma lays fits other)
    fun closes => (onward between).tail fun _ _ rest => rest.last lays closes other

theorem series (all : Enumerated row close [] state tokens value) :
    ∃ pieces, Series (value.map row) pieces ∧ LaysAll tokens pieces := by
  obtain ⟨new, pieces, rfl, -, series, laid⟩ := all
  exact ⟨pieces, series, laid⟩

end Enumerated

/-- The tokens lay out what has been added to those gathered in reverse, without commas. -/
def Sequenced (gathered : List β) (row : β → List Piece) (tokens : List Token) (value : List β) :
    Prop :=
  ∃ new, value = gathered.reverse ++ new ∧ LaysAll tokens (new.flatMap row)

namespace Sequenced

variable {gathered value : List β} {row : β → List Piece} {item : β}

theorem none : Sequenced gathered row [] gathered.reverse :=
  ⟨[], (List.append_nil _).symm, .nil⟩

theorem cons (rest : Sequenced (item :: gathered) row more value)
    (lays : LaysAll tokens (row item)) : Sequenced gathered row (tokens ++ more) value := by
  obtain ⟨new, rfl, laid⟩ := rest
  refine ⟨item :: new, ?_, lays.append laid⟩
  rw [List.reverse_cons, List.append_assoc]
  rfl

theorem block {stmts : List Stmt} (all : Sequenced [] (fun stmt => [.stmt stmt]) tokens stmts) :
    LaysAll tokens (stmts.map .stmt) := by
  obtain ⟨new, rfl, laid⟩ := all
  rwa [List.map_eq_flatMap]

end Sequenced

namespace Task

/-- What the tokens that were taken before a task lay out. -/
def Handed (before : List Token) (state : State) : {category : Category} → Task category → Prop
  | _, .binaryRest left _ => Lays before (.expr left)
  | _, .rightOperand _ => before = [] ∧ state.kind.isSolid = true
  | _, .chain first rest ops op _ => op.mark.Fits state.current ∧
      ∃ links : List ((BinaryOp × Span) × Expr), rest.reverse = links.map (·.2) ∧
        ops.reverse = links.map (·.1) ∧ LaysAll before (.expr first :: links.flatMap linkPieces)
  | _, .powerRest base => Lays before (.expr base)
  | _, .suffixes base => Lays before (.expr base)
  | _, .indexOrSlice base =>
      Lays before (.expr base) ∧ (Mark.attached .leftBracket).Fits state.current
  | _, .function => before = [] ∧ state.kind = .keyword .function
  | _, .ifBlock start condition => LaysAll before (ifHead condition) ∧
      ∃ token rest, before = token :: rest ∧ start = token.span
  | _, _ => before = []

/-- What they lay out together with those that the task takes. -/
def LaysOut (state : State) :
    {category : Category} → Task category → List Token → category.Tree → Prop
  | _, .rightOperand _, tokens, value =>
      ∃ more, tokens = [state.current] ++ more ∧ Lays more (.expr value)
  | _, .items close gathered, tokens, value =>
      Enumerated (fun item => [.expr item]) close gathered state tokens value
  | _, .entries gathered, tokens, value =>
      Enumerated entryPieces .rightBrace gathered state tokens value
  | _, .params gathered, tokens, value =>
      Enumerated paramPieces .rightParen gathered state tokens value
  | _, .paramList, tokens, value => ∃ header, ParamList value header ∧ LaysAll tokens header
  | _, .optional _, tokens, value => LaysAll tokens (boundPieces value)
  | _, .default _, tokens, value => LaysAll tokens (defaultPieces value)
  | _, .arguments gathered, tokens, value => Sequenced gathered argumentPieces tokens value
  | .expr, _, tokens, value => Lays tokens (.expr value)
  | .stmt, _, tokens, value => Lays tokens (.stmt value)
  | .stmts, .block gathered, tokens, value =>
      Sequenced gathered (fun stmt => [.stmt stmt]) tokens value
  | .stmts, .statements gathered, tokens, value =>
      Sequenced gathered (fun stmt => [.stmt stmt]) tokens value

theorem chainNode_takes {first : Expr} {links : List ((BinaryOp × Span) × Expr)}
    (some : links ≠ []) (lays : LaysAll before (.expr first :: links.flatMap linkPieces)) :
    Takes before state (fun tokens value => Lays tokens (.expr value))
      (chainNode first (links.map (·.2)) (links.map (·.1))) := by
  refine .newId fun id _ => ?_
  split
  · rename_i right op opSpan rights ops
    obtain ⟨link, rfl, rfl⟩ := List.map_eq_singleton_iff.mp rights
    obtain ⟨link, right⟩ := link
    cases ops
    have lays : LaysAll before ([Piece.expr first, .mark op.mark] ++ [.expr right]) := lays
    exact .ofPure (.infixed .binary lays rfl)
  · exact .ofPure (.chain some lays)

/-- A token that is a node by itself. -/
theorem leaf_takes {word : Mark} {leaf : NodeId → Expr}
    (form : ∀ id, Form (.expr (leaf id)) [.mark word]) (fits : word.Fits state.current)
    (solid : state.kind.isSolid = true) (span : ∀ id, (leaf id).span = state.span) :
    Takes [] state (fun tokens value => Lays tokens (.expr value)) (do
      advance
      let id ← newId
      return leaf id) :=
  .advance solid fun _ => .newId fun id _ => .ofPure (.leaf (form id) fits (span id))

theorem unaryNode_takes {op : UnaryOp} {token : Token} {operand : Expr} (fits : op.mark.Fits token)
    (lays : Lays tokens (.expr operand)) :
    Takes ([token] ++ tokens) state (fun tokens value => Lays tokens (.expr value))
      (unaryNode op token.span operand) := by
  unfold unaryNode
  split
  · exact .ofPure (.prefixed .negated fits lays rfl)
  · exact .newId fun id _ => .ofPure (.prefixed .unary fits lays rfl)

/-- What a task takes is good, if what was taken before it is what it needs. By induction on the
steps that it may nest: each procedure hands on what has been laid out so far. -/
theorem takes {fuel : Nat} : ∀ {category : Category} (task : Task category)
    (before : List Token) (state : State), task.Handed before state →
      Takes before state (task.LaysOut state) (task.run fuel) := by
  induction fuel with
  | zero =>
      intro _ task _ _ _
      rw [run_zero]
      exact .outOfFuel
  | succ fuel ih =>
      intro _ task before state given
      cases task with
      | expr =>
          obtain rfl := given
          simp only [Task.run, parseExpr]
          exact (ih .unary [] state rfl).bind fun _ left _ => ih (.binaryRest left orLevel) _ _
      | binaryRest left level =>
          simp only [Task.run, parseBinaryRest]
          refine .look fun found seen => ?_
          split
          · exact .ofPure given
          · rename_i strength operator infixed
            split
            · exact .ofPure given
            · rw [← seen] at infixed
              obtain ⟨fits, solid⟩ := Infix.fits_of_infixOf infixed
              have ready (level : Nat) : Handed [] state (.rightOperand level) := ⟨rfl, solid⟩
              refine .look fun opSpan _ => ?_
              cases operator with
              | logic op =>
                  refine (ih _ _ _ (ready (strength + 1))).bind ?_
                  rintro _ right _ ⟨more, rfl, laid⟩
                  rw [← List.append_assoc]
                  have rows := (given.single.append (.mark fits)).append laid.single
                  exact .newId fun id _ => ih (.binaryRest (.logic left op opSpan id right) level)
                    _ _ (.infixed .logic rows rfl)
              | binary op =>
                  dsimp only
                  split
                  · have links : LaysAll before (.expr left :: [].flatMap linkPieces) :=
                      given.single
                    have ready : Handed before state (.chain left [] [] op opSpan) :=
                      ⟨fits, [], rfl, rfl, links⟩
                    exact (ih _ _ _ ready).onward fun _ chain _ => ih (.binaryRest chain level) _ _
                  · refine (ih _ _ _ (ready (strength + 1))).bind ?_
                    rintro _ right _ ⟨more, rfl, laid⟩
                    rw [← List.append_assoc]
                    have rows := (given.single.append (.mark fits)).append laid.single
                    exact .newId fun id _ =>
                      ih (.binaryRest (.binary left op opSpan id right) level) _ _
                        (.infixed .binary rows rfl)
      | rightOperand level =>
          obtain ⟨rfl, solid⟩ := given
          simp only [Task.run, parseRightOperand]
          refine .advance solid fun _ => .skipLineEnds fun between => ?_
          refine (ih .unary [] between rfl).bind fun tokens operand later laid => ?_
          refine .tailFrom (ih (.binaryRest operand level) tokens later laid) ?_
          exact fun tokens value laid => ⟨tokens, rfl, laid⟩
      | chain first rest ops op opSpan =>
          obtain ⟨fits, links, rests, marks, laid⟩ := given
          have ready : Handed [] state (.rightOperand sumLevel) :=
            ⟨rfl, BinaryOp.isSolid_of_fits fits⟩
          simp only [Task.run, parseChain]
          refine (ih _ _ _ ready).bind ?_
          rintro _ operand between ⟨more, rfl, behind⟩
          have longer := (laid.append (.mark fits)).append behind.single
          obtain ⟨all, added⟩ : ∃ all, all = links ++ [((op, opSpan), operand)] := ⟨_, rfl⟩
          have lays : LaysAll (before ++ ([state.current] ++ more))
              (.expr first :: all.flatMap linkPieces) := by
            rw [← List.append_assoc, added]
            simpa [linkPieces] using longer
          have rests : (operand :: rest).reverse = all.map (·.2) := by
            rw [List.reverse_cons, rests, added, List.map_append]
            rfl
          have marks : ((op, opSpan) :: ops).reverse = all.map (·.1) := by
            rw [List.reverse_cons, marks, added, List.map_append]
            rfl
          refine .look fun found seen => ?_
          split
          · rename_i next compared
            rw [← seen] at compared
            refine .look fun nextSpan _ => ?_
            have ready : Handed (before ++ ([state.current] ++ more)) between
                (.chain first (operand :: rest) ((op, opSpan) :: ops) next nextSpan) :=
              ⟨fits_of_comparisonOf compared, all, rests, marks, lays⟩
            exact ih _ _ _ ready
          · rw [rests, marks]
            refine chainNode_takes ?_ lays
            rw [added]
            exact List.concat_ne_nil _ _
      | unary =>
          obtain rfl := given
          simp only [Task.run, parseUnary]
          refine .look ?_
          rintro _ rfl
          refine .look fun found seen => ?_
          split
          · refine .advance (by rw [seen]; rfl) fun between => ?_
            refine (ih .unary [] between rfl).bind fun tokens operand later laid => ?_
            exact (ih (.binaryRest operand comparisonLevel) tokens later laid).bindFrom
              fun _ _ _ laid => unaryNode_takes seen laid
          · refine .advance (by rw [seen]; rfl) fun between => ?_
            exact (ih .unary [] between rfl).bind fun _ _ _ laid => unaryNode_takes seen laid
          · refine .advance (by rw [seen]; rfl) fun between => ?_
            exact (ih .unary [] between rfl).bind fun _ _ _ laid => unaryNode_takes seen laid
          · exact ih .power [] state rfl
      | power =>
          obtain rfl := given
          simp only [Task.run, parsePower]
          refine .ifSymbol (fun fits => .look ?_) fun _ => ?_
          · rintro _ rfl
            have seen : state.kind = .symbol .at := fits
            refine .advance (by rw [seen]; rfl) fun between => ?_
            exact (ih .postfixed [] between rfl).bind fun _ inner _ laid => .newId fun id _ =>
              ih (.powerRest (.reference (state.span.union inner.span) id inner)) _ _
                (.prefixed .reference fits laid rfl)
          · exact (ih .postfixed [] state rfl).bind fun _ base _ => ih (.powerRest base) _ _
      | powerRest base =>
          simp only [Task.run, parsePowerRest]
          refine .ifSymbol (fun fits => ?_) fun _ => .ofPure given
          have seen : state.kind = .symbol .caret := fits
          refine .look fun opSpan _ => .advance (by rw [seen]; rfl) fun _ => .skipLineEnds
            fun between => (ih .unary [] between rfl).bind fun _ exponent _ laid => .newId
              fun id _ => ?_
          have rows := (given.single.append (.mark fits)).append laid.single
          exact .ofPure (.infixed .binary rows rfl)
      | postfixed =>
          obtain rfl := given
          simp only [Task.run, parsePostfix]
          exact (ih .primary [] state rfl).bind fun _ primary _ => ih (.suffixes primary) _ _
      | suffixes base =>
          simp only [Task.run, parseSuffixes]
          refine .look ?_
          rintro _ rfl
          split
          · rename_i seen
            have dot : (Mark.symbol .dot).Fits state.current := seen
            refine .advance (by rw [State.kind, seen]; rfl) fun _ => .bind .expectMemberName ?_
            rintro _ field _ ⟨token, rfl, fits, place⟩
            refine .newId fun id _ => ih (.suffixes (.member base field id)) _ _ ?_
            have inside := given.single.append (.mark dot)
            exact .suffixed .member inside fits (congrArg base.span.union place)
          · rename_i seen
            split
            · exact .ofPure given
            · rename_i attached
              have ready : Handed before state (.indexOrSlice base) :=
                ⟨given, seen, Bool.eq_false_of_not_eq_true attached⟩
              exact (ih _ _ _ ready).onward fun _ suffixed _ => ih (.suffixes suffixed) _ _
          · rename_i seen
            split
            · exact .ofPure given
            · rename_i attached
              have opens : (Mark.attached .leftParen).Fits state.current :=
                ⟨seen, Bool.eq_false_of_not_eq_true attached⟩
              refine .openBracket (by rw [State.kind, seen]; rfl) fun between => ?_
              refine (ih (.items .rightParen []) [] between rfl).bind fun _ args _ all => ?_
              obtain ⟨pieces, series, laid⟩ := all.series
              refine .closeBracket fun later => .expectSymbol (by decide) fun _ closes => .newId
                fun id _ => ih (.suffixes (.call (base.span.union later.span) id base args)) _ _ ?_
              have inside := (given.single.append (.mark opens)).append laid
              exact .suffixed (.call series) inside closes rfl
          · exact .ofPure given
      | items close gathered =>
          obtain rfl := given
          simp only [Task.run, parseItems]
          refine .ifSymbol (fun _ => .ofPure .none) fun other => ?_
          refine (ih .expr [] state rfl).bind fun _ item _ laid => ?_
          exact Enumerated.takes other laid.single fun state =>
            ih (.items close (item :: gathered)) [] state rfl
      | optional stop =>
          obtain rfl := given
          simp only [Task.run, parseUnless]
          refine .ifSymbol (fun _ => .ofPure .nil) fun _ => ?_
          exact (ih .expr [] state rfl).bind fun _ _ _ laid => .ofPure laid.single
      | indexOrSlice base =>
          obtain ⟨given, opens⟩ := given
          simp only [Task.run, parseIndexOrSlice]
          refine .look ?_
          rintro _ rfl
          refine .openBracket (by rw [State.kind, opens.1]; rfl) fun between => ?_
          refine (ih (.optional .colon) [] between rfl).bind fun _ first later laidFirst => ?_
          have inside := (given.single.append (.mark opens)).append laidFirst
          refine .ifSymbol (fun colon => ?_) fun _ => ?_
          · have seen : later.kind = .symbol .colon := colon
            refine .advance (by rw [seen]; rfl) fun between => ?_
            refine (ih (.optional .rightBracket) [] between rfl).bind fun _ last _ laidLast => ?_
            refine .closeBracket fun _ => .expectSymbol (by decide) fun _ closes => .newId
              fun id _ => ?_
            have inside := (inside.append (.mark colon)).append laidLast
            exact .ofPure (.suffixed .slice inside closes rfl)
          · refine .closeBracket fun _ => .expectSymbol (by decide) fun _ closes => ?_
            split
            · exact .unexpected _
            · refine .newId fun id _ => .ofPure ?_
              exact .index given opens (fun inOrder => (laidFirst inOrder).laid) closes
      | primary =>
          obtain rfl := given
          simp only [Task.run, parsePrimary]
          refine .look ?_
          rintro _ rfl
          refine .look fun found seen => ?_
          split
          · exact leaf_takes (fun _ => .number) seen (by rw [seen]; rfl) fun _ => rfl
          · exact leaf_takes (fun _ => .text) seen (by rw [seen]; rfl) fun _ => rfl
          · rename_i word
            have fits : (Mark.name word).Fits state.current := seen
            exact leaf_takes (fun _ => .name) fits (by rw [seen]; rfl) fun _ => rfl
          · split
            · exact leaf_takes (fun _ => .true) seen (by rw [seen]; rfl) fun _ => rfl
            · exact leaf_takes (fun _ => .false) seen (by rw [seen]; rfl) fun _ => rfl
            · exact leaf_takes (fun _ => .null) seen (by rw [seen]; rfl) fun _ => rfl
            · exact leaf_takes (fun _ => .self) seen (by rw [seen]; rfl) fun _ => rfl
            · exact leaf_takes (fun _ => .super) seen (by rw [seen]; rfl) fun _ => rfl
            · exact ih .function [] state ⟨rfl, seen⟩
            · exact .unexpected _
          · split
            · refine .openBracket (by rw [seen]; rfl) fun between => ?_
              refine (ih .expr [] between rfl).bind fun _ inner _ laid => .closeBracket fun _ =>
                .expectSymbol (by decide) fun _ closes => .newId fun id _ => .ofPure ?_
              have opens : (Mark.symbol .leftParen).Fits state.current := seen
              refine .bracketed ?_ opens laid.single closes rfl
              exact .group
            · refine .openBracket (by rw [seen]; rfl) fun between => ?_
              refine (ih (.items .rightBracket []) [] between rfl).bind fun _ _ _ all => ?_
              obtain ⟨pieces, series, laid⟩ := all.series
              exact .closeBracket fun _ => .expectSymbol (by decide) fun _ closes => .newId
                fun id _ => .ofPure (.bracketed (.list series) seen laid closes rfl)
            · refine .openBracket (by rw [seen]; rfl) fun between => ?_
              refine (ih (.entries []) [] between rfl).bind fun _ _ _ all => ?_
              obtain ⟨pieces, series, laid⟩ := all.series
              exact .closeBracket fun _ => .expectSymbol (by decide) fun _ closes => .newId
                fun id _ => .ofPure (.bracketed (.map series) seen laid closes rfl)
            · exact .unexpected _
          · exact .unexpected _
      | entries gathered =>
          obtain rfl := given
          simp only [Task.run, parseEntries]
          refine .ifSymbol (fun _ => .ofPure .none) fun other => ?_
          refine (ih .expr [] state rfl).bind fun _ key later laidKey => ?_
          refine .ifSymbol (fun colon => ?_) fun _ => .closeBracket fun _ => .unexpected _
          have seen : later.kind = .symbol .colon := colon
          refine .advance (by rw [seen]; rfl) fun between => ?_
          refine (ih .expr [] between rfl).bind fun _ value _ laidValue => ?_
          have entry : LaysAll _ (entryPieces (key, value)) :=
            (laidKey.single.append (.mark colon)).append laidValue.single
          exact Enumerated.takes other entry fun state =>
            ih (.entries ((key, value) :: gathered)) [] state rfl
      | function =>
          obtain ⟨rfl, starts⟩ := given
          simp only [Task.run, parseFunction]
          refine .look ?_
          rintro _ rfl
          have solid : state.kind.isSolid = true := by rw [starts]; rfl
          refine .look fun nesting _ => .setNesting (.advance solid fun between =>
            (ih .paramList [] between rfl).bind ?_)
          rintro _ params between ⟨header, written, head⟩
          refine (ih (.block []) [] between rfl).bind fun _ body later inside => .look ?_
          rintro _ rfl
          exact .expectKeyword fun _ ends => .setNesting (.expectKeyword fun _ last => .newId
            fun id _ => .ofPure (.function starts written head inside.block ends last))
      | paramList =>
          obtain rfl := given
          simp only [Task.run, parseParamList]
          refine .ifSymbol (fun opens => ?_) fun _ => .ofPure ⟨[], .none, .nil⟩
          have seen : state.kind = .symbol .leftParen := opens
          refine .openBracket (by rw [seen]; rfl) fun between => ?_
          refine (ih (.params []) [] between rfl).bind fun _ params _ all => ?_
          obtain ⟨pieces, series, laid⟩ := all.series
          exact .closeBracket fun _ => .expectSymbol (by decide) fun _ closes => .ofPure
            ⟨_, .some series, ((LaysAll.mark opens).append laid).append (.mark closes)⟩
      | params gathered =>
          obtain rfl := given
          simp only [Task.run, parseParams]
          refine .ifSymbol (fun _ => .ofPure .none) fun other => ?_
          refine Takes.expectName.bind fun _ name later laidName => ?_
          refine (ih (.default name.name) [] later rfl).bind fun _ default _ laidDefault => ?_
          refine .newId fun id _ => ?_
          have param := laidName.append laidDefault
          rw [← paramPieces_eq id name default] at param
          exact Enumerated.takes other param fun state =>
            ih (.params (.mk id name default :: gathered)) [] state rfl
      | default param =>
          obtain rfl := given
          simp only [Task.run, parseDefault]
          refine .ifSymbol (fun fits => ?_) fun _ => .ofPure .nil
          have seen : state.kind = .symbol .assign := fits
          refine .advance (by rw [seen]; rfl) fun between => ?_
          refine (ih .unary [] between rfl).bind fun _ value _ laid => ?_
          split
          · exact .ofPure ((LaysAll.mark fits).append laid.single)
          · exact .closeBracket fun _ => .fail _
      | block gathered =>
          obtain rfl := given
          simp only [Task.run, parseBlock]
          refine .skipSeparators fun state => .look fun found _ => ?_
          split
          · exact .ofPure .none
          · exact .ofPure .none
          · exact .unexpected _
          · refine (ih .stmt [] state rfl).bind fun _ stmt _ laid => ?_
            exact .expectStatementEnd fun later =>
              (ih (.block (stmt :: gathered)) [] later rfl).tail fun _ _ rest =>
                rest.cons laid.single
      | stmt =>
          obtain rfl := given
          simp only [Task.run, parseStmt]
          refine .beginStatement fun state => .look fun found seen => ?_
          split
          · exact ih .conditional [] state rfl
          · refine .expectKeyword fun between starts => ?_
            refine (ih .expr [] between rfl).bind fun _ condition between head => ?_
            refine (ih (.block []) [] between rfl).bind fun _ body _ inside => ?_
            refine .bind (.expectEnd .while) fun _ _ _ ends => .newId fun id _ => .ofPure ?_
            have rows := (LaysAll.mark starts).append head.single
            exact .ofStmt .whileLoop ((rows.append inside.block).append ends) ⟨_, rfl, rfl⟩
          · refine .expectKeyword fun between starts => .bind .expectName fun _ var _ named => ?_
            refine .expectKeyword fun between word => ?_
            refine (ih .expr [] between rfl).bind fun _ iter between head => ?_
            refine (ih (.block []) [] between rfl).bind fun _ body _ inside => ?_
            refine .bind (.expectEnd .for) fun _ _ _ ends => .newId fun id _ => .ofPure ?_
            have start := ((LaysAll.mark starts).append named).append (.mark word)
            have rows := start.append head.single
            exact .ofStmt .forLoop ((rows.append inside.block).append ends) ⟨_, rfl, rfl⟩
          · refine .look ?_
            rintro _ rfl
            exact .advance (by rw [seen]; rfl) fun _ => .newId fun id _ => .ofPure
              (.ofStmt .breakLoop (.mark seen) ⟨_, rfl, rfl⟩)
          · refine .look ?_
            rintro _ rfl
            exact .advance (by rw [seen]; rfl) fun _ => .newId fun id _ => .ofPure
              (.ofStmt .continueLoop (.mark seen) ⟨_, rfl, rfl⟩)
          · refine .look ?_
            rintro _ rfl
            have starts : (Mark.keyword .return).Fits state.current := seen
            refine .advance (by rw [seen]; rfl) fun between => .look fun _ _ => ?_
            split
            · exact .newId fun id _ => .ofPure (.ofStmt .returnValue (.mark starts) ⟨_, rfl, rfl⟩)
            · refine (ih .expr [] between rfl).bind fun _ value _ laid => .newId fun id _ => ?_
              have rows := (LaysAll.mark starts).append laid.single
              exact .ofPure (.ofStmt .returnValue rows ⟨_, rfl, rfl⟩)
          · exact ih .simple [] state rfl
      | conditional =>
          obtain rfl := given
          simp only [Task.run, parseIf]
          refine .expectKeyword fun between starts => ?_
          refine (ih .expr [] between rfl).bind fun tokens condition last laid => ?_
          refine .expectKeyword fun between follows => .look fun found _ => ?_
          have head := ((LaysAll.mark starts).append laid.single).append (.mark follows)
          have ready : Handed ([state.current] ++ tokens ++ [last.current]) between
              (.ifBlock state.span condition) := ⟨head, state.current, _, rfl, rfl⟩
          split
          · exact ih _ _ _ ready
          · exact ih _ _ _ ready
          · refine (ih .stmt [] between rfl).bind fun _ stmt later body => ?_
            have rows := head.append body.single
            refine .ifKeyword (fun other => ?_) ?_
            · have seen : later.kind = .keyword .else := other
              refine .advance (by rw [seen]; rfl) fun between => ?_
              refine (ih .stmt [] between rfl).bind fun _ _ _ laid => .newId fun id _ => ?_
              have rows := (rows.append (.mark other)).append laid.single
              exact .ofPure (.ofStmt .ifElse rows ⟨_, rfl, rfl⟩)
            · exact .newId fun id _ => .ofPure (.ofStmt .ifLine rows ⟨_, rfl, rfl⟩)
      | ifBlock start condition =>
          obtain ⟨head, token, others, rfl, rfl⟩ := given
          simp only [Task.run, parseIfBlock]
          refine (ih (.block []) [] state rfl).bind fun _ body later inside => ?_
          have rows := head.append inside.block
          refine .ifKeyword (fun other => ?_) ?_
          · have seen : later.kind = .keyword .else := other
            have rows := rows.append (.mark other)
            refine .advance (by rw [seen]; rfl) fun state => .ifKeyword (fun starts => ?_) ?_
            · -- The `if` behind the `else` is a statement of its own.
              have seen : state.kind = .keyword .if := starts
              refine .look ?_
              rintro _ rfl
              refine .advance (by rw [seen]; rfl) fun between => ?_
              refine (ih .expr [] between rfl).bind fun tokens condition last laid => ?_
              refine .expectKeyword fun between follows => ?_
              have head := ((LaysAll.mark starts).append laid.single).append (.mark follows)
              have ready : Handed ([state.current] ++ tokens ++ [last.current]) between
                  (.ifBlock state.span condition) := ⟨head, state.current, _, rfl, rfl⟩
              rw [List.append_assoc, List.append_assoc _ [state.current],
                ← List.append_assoc [state.current]]
              exact (ih _ _ _ ready).bindFrom fun _ _ _ laid => .newId fun id _ => .ofPure
                (.ofStmt .ifElse (rows.append laid.single) ⟨_, rfl, rfl⟩)
            · refine (ih (.block []) [] state rfl).bind fun _ _ _ inside => ?_
              refine .bind (.expectEnd .if) fun _ _ _ ends => .newId fun id _ => .ofPure ?_
              exact .ofStmt .ifElseBlock ((rows.append inside.block).append ends) ⟨_, rfl, rfl⟩
          · refine .bind (.expectEnd .if) fun _ _ _ ends => .newId fun id _ => .ofPure ?_
            exact .ofStmt .ifBlock (rows.append ends) ⟨_, rfl, rfl⟩
      | simple =>
          obtain rfl := given
          simp only [Task.run, parseSimple]
          refine .look fun found _ => ?_
          split
          · exact ih .fromTarget [] state rfl
          · exact ih .fromTarget [] state rfl
          · exact ih .fromTarget [] state rfl
          · exact (ih .expr [] state rfl).bind fun _ _ _ laid => .newId fun id _ =>
              .ofPure (.ofTarget .exprStmt laid.single rfl)
      | fromTarget =>
          obtain rfl := given
          simp only [Task.run, parseFromTarget]
          refine (ih .postfixed [] state rfl).bind fun tokens target state given => ?_
          refine .look fun found seen => ?_
          split
          · rename_i op assigns
            split
            · rw [← seen] at assigns
              obtain ⟨mark, same, known, solid⟩ := symbol_of_assignmentOf assigns
              refine .advance solid fun _ => .skipLineEnds fun between => ?_
              refine (ih .expr [] between rfl).bind fun _ value _ laid => .newId fun id _ => ?_
              have fits : (Mark.symbol mark).Fits state.current := same
              have rows := (given.single.append (.mark fits)).append laid.single
              exact .ofPure (.ofTarget (.assign known) rows rfl)
            · exact .fail _
          · refine .look fun _ _ => .look fun _ _ => ?_
            split
            · refine (ih .expr [] state rfl).bind fun _ first between laid => ?_
              refine (ih (.arguments [first]) [] between rfl).bind ?_
              rintro _ _ _ ⟨args, rfl, others⟩
              refine .newId fun callId _ => .newId fun id _ => .ofPure ?_
              have rows := (given.single.append laid.single).append others
              cases found : (first :: args).getLast? with
              | none => exact absurd (List.getLast?_eq_none_iff.mp found) (List.cons_ne_nil _ _)
              | some last =>
                  rw [List.reverse_singleton, List.singleton_append, found]
                  exact .ofTarget .exprStmt (Lays.command found rows).single rfl
            · refine (ih (.powerRest target) tokens state given).onward fun _ base _ laid => ?_
              exact (ih (.binaryRest base orLevel) _ _ laid).onward fun _ _ _ laid => .newId
                fun id _ => .ofPure (.ofTarget .exprStmt laid.single rfl)
      | arguments gathered =>
          obtain rfl := given
          simp only [Task.run, parseArguments]
          refine .ifSymbol (fun comma => ?_) fun _ => .ofPure .none
          have seen : state.kind = .symbol .comma := comma
          refine .advance (by rw [seen]; rfl) fun _ => .skipLineEnds fun between => ?_
          refine (ih .expr [] between rfl).bind fun _ arg later laid => ?_
          have rows := (LaysAll.mark comma).append laid.single
          exact (ih (.arguments (arg :: gathered)) [] later rfl).tail fun _ _ rest => rest.cons rows
      | statements gathered =>
          obtain rfl := given
          simp only [Task.run, parseStatements]
          refine .skipSeparators fun state => .look fun found _ => ?_
          split
          · exact .ofPure .none
          · exact .unexpected _
          · exact .unexpected _
          · refine (ih .stmt [] state rfl).bind fun _ stmt _ laid => ?_
            exact .expectStatementEnd fun later =>
              (ih (.statements (stmt :: gathered)) [] later rfl).tail fun _ _ rest =>
                rest.cons laid.single

end Task

theorem parseStatements_atEnd {fuel : Nat} {gathered stmts : List Stmt} {after : State}
    (done : parseStatements fuel gathered state = .ok stmts after) : after.kind = .endOfFile := by
  induction fuel generalizing gathered state with
  | zero => exact nomatch done
  | succ fuel ih =>
      rw [parseStatements] at done
      obtain ⟨_, _, -, done⟩ := bind_inv done
      obtain ⟨found, same, seen, done⟩ := bind_inv done
      split at done
      · cases done
        obtain ⟨atEnd, rfl⟩ := Reply.ok.inj seen
        exact atEnd
      · exact absurd done unexpected_ne_ok
      · exact absurd done unexpected_ne_ok
      · obtain ⟨_, _, -, done⟩ := bind_inv done
        obtain ⟨_, _, -, done⟩ := bind_inv done
        exact ih done

/-- The tokens of a text are in order, and none reaches beyond it. -/
theorem lex_inOrder (source : String) :
    InOrder (Token.lex source) ∧
      ∀ token ∈ Token.lex source, token.span.stop ≤ source.utf8ByteSize := by
  have covers : Token.Covers [] source.toList (Token.lex source) :=
    Token.lexFrom_covers [] source.toList
  obtain ⟨others, last, split, -, start, stop, solid, -⟩ := covers.ended
  rw [List.nil_append, Token.byteSize_toList] at start stop
  have ordered := covers.ordered.2
  refine ⟨⟨fun token member => ?_, ordered.and covers.ordered_lines.2⟩, fun token member => ?_⟩
  · rw [split] at member
    rcases List.mem_append.mp member with member | member
    · exact Nat.le_of_lt (solid token member).2
    · rw [List.mem_singleton.mp member, start, stop]
  · rw [split] at member ordered
    rcases List.mem_append.mp member with member | member
    · rw [← start]
      exact (List.pairwise_append.mp ordered).2.2 token member last List.mem_cons_self
    · rw [List.mem_singleton.mp member, stop]

/-- What the parser has read lies in the tokens, the end of the file behind it. -/
theorem rows_of_parseAll {token : Token} {ahead : List Token} {stmts : List Stmt} {after : State}
    (ends : Token.EndOnce (token :: ahead)) (read : parseAll token ahead = .ok stmts after) :
    ∃ written, (token :: ahead).filter (fun token => !isSeparator token.kind) =
      written ++ [after.current] ∧ after.current.kind = .endOfFile ∧
        LaysAll written (stmts.map .stmt) := by
  have stands := State.standsIn_start token ahead
  have atEnd := parseStatements_atEnd read
  obtain ⟨-, written, split, good⟩ := Task.takes (.statements []) [] (start token ahead) rfl
    (stands.ended ends) stmts after read
  have suits : (Task.statements []).Suits (start token ahead).nesting := rfl
  have precedes := Task.precedes_of_run suits read
  have none := (precedes.standsIn stands).1.ahead_eq_nil ends atEnd
  have last : after.left = [after.current] := by
    rw [State.left, none]
    exact List.filter_cons_of_pos (by rw [show after.current.kind = _ from atEnd]; rfl)
  rw [last] at split
  exact ⟨written, split, atEnd, good.block⟩

/-- The statements lie in the text, every node of them in its place. -/
structure LaidOut (source : String) (stmts : List Stmt) (tokens : List Token) : Prop where
  /-- Without line ends and semicolons, the tokens of the text are these and the end of the file. -/
  solid : ∃ last, last.kind = .endOfFile ∧
    (Token.lex source).filter (fun token => !isSeparator token.kind) = tokens ++ [last]
  /-- They write the statements one after the other. -/
  rows : Rows tokens (stmts.map .stmt)
  /-- The tokens of an expression start at the start of its span, on its line. The span covers those
  of all expressions that are part of it, and lies in the text. -/
  exprs : ∀ expr, (Node.body stmts).Within (.expr expr) →
    ∃ first rest, (first :: rest) <:+: tokens ∧ Laid (first :: rest) (.expr expr) ∧
      expr.span.start = first.span.start ∧ expr.span.line = first.span.line ∧
      (∀ inner, (Node.expr expr).Within (.expr inner) → expr.span.Covers inner.span) ∧
      expr.span.start ≤ expr.span.stop ∧ expr.span.stop ≤ source.utf8ByteSize
  /-- A statement is on the line of the first of its tokens. -/
  lines : ∀ inLoop stmt, (Node.body stmts).Within (.stmt inLoop stmt) →
    ∃ first rest, (first :: rest) <:+: tokens ∧ Laid (first :: rest) (.stmt stmt) ∧
      stmt.line = first.span.line

/-- Whatever text parses, its statements are laid out in it. -/
theorem laidOut_of_parse {source : String} {stmts : List Stmt}
    (read : Program.parse source = .ok stmts) : ∃ tokens, LaidOut source stmts tokens := by
  obtain ⟨inOrder, inside⟩ := lex_inOrder source
  obtain ⟨written, last, solid, atEnd, lays⟩ : ∃ written last,
      (Token.lex source).filter (fun token => !isSeparator token.kind) = written ++ [last] ∧
        last.kind = .endOfFile ∧ LaysAll written (stmts.map .stmt) := by
    have ends := Token.lex_endOnce source
    rw [Program.parse] at read
    generalize Token.lex source = tokens at read ends
    unfold Program.ofTokens at read
    split at read
    · obtain ⟨front, final, split, -⟩ := ends
      exact absurd split.symm (List.append_ne_nil_of_right_ne_nil _ (List.cons_ne_nil _ _))
    · rename_i token ahead
      cases reply : parseAll token ahead with
      | ok result after =>
          rw [reply] at read
          cases read
          obtain ⟨written, split, atEnd, lays⟩ := rows_of_parseAll ends reply
          exact ⟨written, after.current, split, atEnd, lays⟩
      | failed error stopped =>
          rw [reply] at read
          exact nomatch read
      | exhausted =>
          rw [reply] at read
          exact nomatch read
  have sublist : written.Sublist (Token.lex source) :=
    (List.sublist_append_left written [last]).trans (solid ▸ List.filter_sublist)
  have ordered := inOrder.sublist sublist
  have rows := lays ordered
  have all : LaidIn written (.body stmts) :=
    fun stmt member => rows.mem (List.mem_map_of_mem member)
  refine ⟨written, ⟨last, atEnd, solid⟩, rows, fun expr within => ?_, fun inLoop stmt within => ?_⟩
  · obtain ⟨row, part, laid⟩ := all.within within
    have placed := laid.placed
    obtain ⟨token, member, stop⟩ := placed.last
    obtain ⟨first, rest, rfl, start, line⟩ := placed.first
    have found := (part.sublist.trans sublist).subset member
    exact ⟨first, rest, part, laid, start, line, fun inner => laid.covers,
      placed.start_le_stop (ordered.sublist part.sublist), stop ▸ inside token found⟩
  · obtain ⟨row, part, laid⟩ := all.within within
    obtain ⟨first, rest, rfl, line⟩ := laid.located
    exact ⟨first, rest, part, laid, line⟩

/-- A list that goes on on the next line, in an `else if` that starts on the third. -/
theorem laidOut_elseIf :
    let source := "if a then\n  b = -c\nelse if d then\n  print [e,\n    f]\nend if\n"
    let lines (stmt : Stmt) : List Nat := match stmt with
      | .ifElse _ _ _ body (some [.ifElse _ other _ others _]) =>
          [stmt.line] ++ body.map Stmt.line ++ [other.line] ++ others.map Stmt.line
      | _ => []
    ∃ stmts tokens, Program.parse source = .ok stmts ∧ stmts.map lines = [[1, 2, 3, 4]] ∧
      LaidOut source stmts tokens := by
  intro source lines
  have found : (Program.parse source).toOption.map (·.map lines) = some [[1, 2, 3, 4]] := by
    decide +kernel
  cases read : Program.parse source with
  | error error =>
      rw [read] at found
      exact nomatch found
  | ok stmts =>
      rw [read] at found
      obtain ⟨tokens, laidOut⟩ := laidOut_of_parse read
      exact ⟨stmts, tokens, rfl, Option.some.inj found, laidOut⟩

end Parser

end MiniScript
