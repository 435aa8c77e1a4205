import Mathlib.Data.List.TakeWhile
import Mathlib.Data.String.Basic
import MiniScript.Token.Lexer

/-!
# The places of the tokens in a text

Gaps and lexemes in turn are the whole text, so the spans of the tokens lie in order, a gap
between two of them holds blanks and at most one comment, and a line end is a token of its own.
Reading goes on behind what is read already: `Covers` says of the characters in front how far
the next token starts and on which line it stands.
-/

namespace MiniScript.Token

open Text (byteSize byteSize_append)

/-- Blanks, with a comment behind them if there is one. A comment stays on its line. -/
inductive IsGap : List Char → Prop
  | nil : IsGap []
  | blank {char : Char} {gap : List Char} (isBlank : char = ' ' ∨ char = '\t' ∨ char = '\r')
      (others : IsGap gap) : IsGap (char :: gap)
  | comment {body : List Char} (line : '\n' ∉ body) : IsGap ('/' :: '/' :: body)

namespace IsGap

theorem noLineEnd {gap : List Char} (isGap : IsGap gap) : '\n' ∉ gap := by
  induction isGap with
  | nil => exact List.not_mem_nil
  | blank isBlank others ih =>
      rcases isBlank with rfl | rfl | rfl <;> simp [ih]
  | comment line => simp [line]

end IsGap

theorem isGapChar_iff {char : Char} :
    isGapChar char = true ↔ char = ' ' ∨ char = '\t' ∨ char = '\r' := by
  simp [isGapChar, or_assoc]

theorem noLineEnd_takeWhile {chars : List Char} {goesOn : Char → Bool}
    (stops : goesOn '\n' = false) : '\n' ∉ chars.takeWhile goesOn := by
  intro found
  exact Bool.false_ne_true (stops.symm.trans (List.mem_takeWhile_imp found))

theorem splitGap_isGap (chars : List Char) : IsGap (splitGap chars).1 := by
  induction chars with
  | nil => exact .nil
  | cons char rest ih =>
      unfold splitGap
      split
      · rename_i blank
        exact .blank (isGapChar_iff.mp blank) ih
      · split
        · exact .comment (noLineEnd_takeWhile rfl)
        · exact .nil

/-! ### A lexeme holds a line end only where it is one -/

theorem scanText_noLineEnd (chars : List Char) : '\n' ∉ (scanText chars).2.1 := by
  fun_induction scanText chars with
  | case1 rest value lexeme after read ih =>
      rw [read] at ih
      simp [ih]
  | case2 => simp
  | case3 => exact List.not_mem_nil
  | case4 => exact List.not_mem_nil
  | case5 char rest noDouble noQuote line value lexeme after read ih =>
      rw [read] at ih
      simp [ih, Ne.symm line]

theorem ne_lineEnd_of_isDigit {char : Char} (digit : char.isDigit = true) : char ≠ '\n' := by
  rintro rfl
  cases digit

theorem scanNumber_noLineEnd (hasPoint : Bool) (chars : List Char) :
    '\n' ∉ (scanNumber hasPoint chars).1 := by
  fun_induction scanNumber hasPoint chars with
  | case1 => exact List.not_mem_nil
  | case2 hasPoint char rest digit lexeme after read ih =>
      rw [read] at ih
      simp [ih, (ne_lineEnd_of_isDigit digit).symm]
  | case3 => exact List.not_mem_nil
  | case4 hasPoint char noDigit next more point lexeme after read ih =>
      rw [read] at ih
      simp only [Bool.and_eq_true, beq_iff_eq] at point
      simp [ih, point.1.1, (ne_lineEnd_of_isDigit point.2).symm]
  | case5 hasPoint char noDigit next more noPoint exponent lexeme after read ih =>
      rw [read] at ih
      have mark : char ≠ '\n' := by
        rintro rfl
        simp [isExponentMark] at exponent
      have sign : next ≠ '\n' := by
        rintro rfl
        simp [isSign] at exponent
      simp [ih, mark.symm, sign.symm]
  | case6 => exact List.not_mem_nil

theorem numberKind_isEnd (lexeme : List Char) :
    (numberKind lexeme).isEndOfLine = false ∧ (numberKind lexeme).isEndOfFile = false := by
  unfold numberKind
  split <;> exact ⟨rfl, rfl⟩

theorem wordKind_isEnd (word : String) :
    (wordKind word).isEndOfLine = false ∧ (wordKind word).isEndOfFile = false := by
  unfold wordKind
  split <;> exact ⟨rfl, rfl⟩

theorem Kind.isEndOfLine_iff {kind : Kind} : kind.isEndOfLine = true ↔ kind = .endOfLine := by
  cases kind <;> simp [Kind.isEndOfLine]

theorem Kind.isEndOfFile_iff {kind : Kind} : kind.isEndOfFile = true ↔ kind = .endOfFile := by
  cases kind <;> simp [Kind.isEndOfFile]

/-- What a kind says of the line ends in its lexeme; the end of the file has no lexeme. -/
structure Kind.Reads (kind : Kind) (lexeme : List Char) : Prop where
  notLast : kind.isEndOfFile = false
  lineEnds : lexeme.count '\n' = if kind.isEndOfLine then 1 else 0

theorem Kind.Reads.plain {kind : Kind} {lexeme : List Char}
    (plain : kind.isEndOfLine = false ∧ kind.isEndOfFile = false) (line : '\n' ∉ lexeme) :
    kind.Reads lexeme := by
  refine ⟨plain.2, ?_⟩
  rw [plain.1, if_neg Bool.false_ne_true, List.count_eq_zero_of_not_mem line]

theorem scanSymbol_reads {char : Char} (line : char ≠ '\n') (rest : List Char) :
    (scanSymbol char rest).kind.Reads (scanSymbol char rest).lexeme := by
  unfold scanSymbol
  dsimp only
  split <;> split <;> try split
  all_goals exact .plain ⟨rfl, rfl⟩ (by simp [line.symm])

theorem scan_reads (char : Char) (rest : List Char) :
    (scan char rest).kind.Reads (scan char rest).lexeme := by
  unfold scan
  split
  · rename_i lineEnd
    subst lineEnd
    exact ⟨rfl, rfl⟩
  · rename_i line
    have apart := Ne.symm line
    split
    · have inside := scanText_noLineEnd rest
      split
      all_goals
        rename_i read
        rw [read] at inside
        exact .plain ⟨rfl, rfl⟩ (by simpa [apart] using inside)
    · split
      · exact .plain (numberKind_isEnd _)
          (by simpa [apart] using scanNumber_noLineEnd (char == '.') rest)
      · split
        · have inside : '\n' ∉ rest.takeWhile continuesName := noLineEnd_takeWhile rfl
          exact .plain (wordKind_isEnd _) (by simpa [apart] using inside)
        · exact scanSymbol_reads line rest

/-! ### How gaps and lexemes cover the characters -/

/-- The tokens of `chars`, which stand behind `before` in the source. -/
inductive Covers : List Char → List Char → List Token → Prop
  | endOfFile {before gap : List Char} (isGap : IsGap gap) :
      Covers before gap
        [⟨.endOfFile, ⟨byteSize (before ++ gap), byteSize (before ++ gap),
          1 + (before ++ gap).count '\n'⟩, !gap.isEmpty⟩]
  | token {before gap lexeme rest : List Char} {kind : Kind} {tokens : List Token}
      (isGap : IsGap gap) (solid : lexeme ≠ []) (reads : kind.Reads lexeme)
      (others : Covers (before ++ gap ++ lexeme) rest tokens) :
      Covers before (gap ++ lexeme ++ rest)
        (⟨kind, ⟨byteSize (before ++ gap), byteSize (before ++ gap ++ lexeme),
          1 + (before ++ gap).count '\n'⟩, !gap.isEmpty⟩ :: tokens)

theorem count_gap {before gap : List Char} (isGap : IsGap gap) :
    (before ++ gap).count '\n' = before.count '\n' := by
  rw [List.count_append, List.count_eq_zero_of_not_mem isGap.noLineEnd, Nat.add_zero]

theorem lexFrom_covers (before chars : List Char) :
    Covers before chars (lexFrom chars (byteSize before) (1 + before.count '\n')) := by
  induction long : chars.length using Nat.strong_induction_on generalizing before chars with
  | _ length ih =>
      have isGap := splitGap_isGap chars
      have shorter := splitGap_rest_length chars
      have whole := splitGap_append chars
      have line : (before ++ (splitGap chars).1).count '\n' = before.count '\n' := count_gap isGap
      unfold lexFrom
      dsimp only
      rw [← byteSize_append, ← line]
      split
      · rename_i after
        rw [after, List.append_nil] at whole
        have only : Covers before (splitGap chars).1 _ := .endOfFile isGap
        rwa [whole] at only ⊢
      · rename_i char rest after
        have reads := scan_reads char rest
        have least := scan_rest_length char rest
        rw [after] at shorter whole
        have others := ih _ (by omega) (before ++ (splitGap chars).1 ++ (scan char rest).lexeme)
          (scan char rest).rest rfl
        have covered := Covers.token isGap (scan_lexeme_ne_nil char rest) reads others
        rw [List.append_assoc _ (scan char rest).lexeme, scan_append, whole] at covered
        have next : 1 + (before ++ (splitGap chars).1 ++ (scan char rest).lexeme).count '\n' =
            if (scan char rest).kind.isEndOfLine then
              1 + (before ++ (splitGap chars).1).count '\n' + 1
            else 1 + (before ++ (splitGap chars).1).count '\n' := by
          rw [List.count_append, reads.lineEnds]
          split <;> rfl
        rw [next, byteSize_append (before ++ _)] at covered
        exact covered

/-! ### What can be read off the covering -/

/-- Where reading stands behind these tokens, if it stood at `start` in front of them. -/
def stopOf (start : Nat) : List Token → Nat
  | [] => start
  | token :: tokens => stopOf token.span.stop tokens

/-- A token in its place: the characters in front of the gap, the gap, those it was read from. -/
structure Sits (chars : List Char) (token : Token) (front gap lexeme rest : List Char) :
    Prop where
  whole : chars = front ++ gap ++ lexeme ++ rest
  isGap : IsGap gap
  start : token.span.start = byteSize (front ++ gap)
  stop : token.span.stop = byteSize (front ++ gap ++ lexeme)
  line : token.span.line = 1 + (front ++ gap).count '\n'
  spaceBefore : token.spaceBefore = !gap.isEmpty
  lineEnds : lexeme.count '\n' = if token.kind.isEndOfLine then 1 else 0

theorem byteSize_pos {chars : List Char} (solid : chars ≠ []) : 0 < byteSize chars := by
  cases chars with
  | nil => exact absurd rfl solid
  | cons char rest =>
      have size := char.utf8Size_pos
      simp only [byteSize, List.foldr_cons]
      omega

namespace Covers

variable {before chars : List Char} {tokens : List Token}

theorem sits (covers : Covers before chars tokens) {earlier later : List Token} {token : Token}
    (split : tokens = earlier ++ token :: later) :
    ∃ front gap lexeme rest, Sits (before ++ chars) token front gap lexeme rest ∧
      byteSize front = stopOf (byteSize before) earlier := by
  induction covers generalizing earlier with
  | @endOfFile before gap isGap =>
      cases earlier with
      | nil =>
          obtain ⟨rfl, -⟩ := List.cons.inj split
          exact ⟨before, gap, [], [], ⟨by simp, isGap, rfl, by simp, rfl, rfl, rfl⟩, rfl⟩
      | cons first earlier => simp at split
  | @token before gap lexeme rest kind tokens isGap solid reads others ih =>
      cases earlier with
      | nil =>
          obtain ⟨rfl, -⟩ := List.cons.inj split
          exact ⟨before, gap, lexeme, rest,
            ⟨by simp, isGap, rfl, rfl, rfl, rfl, reads.lineEnds⟩, rfl⟩
      | cons first earlier =>
          obtain ⟨rfl, inner⟩ := List.cons.inj split
          obtain ⟨front, gap', lexeme', rest', sits, stop⟩ := ih inner
          refine ⟨front, gap', lexeme', rest', ?_, stop⟩
          rwa [show before ++ (gap ++ lexeme ++ rest) = before ++ gap ++ lexeme ++ rest by simp]

/-- The tokens do not reach back, and what follows a token starts behind it. -/
theorem ordered (covers : Covers before chars tokens) :
    (∀ token ∈ tokens, byteSize before ≤ token.span.start) ∧
      tokens.Pairwise fun earlier later => earlier.span.stop ≤ later.span.start := by
  induction covers with
  | endOfFile isGap => simp [byteSize_append]
  | @token before gap lexeme rest kind tokens isGap solid reads others ih =>
      obtain ⟨behind, ordered⟩ := ih
      refine ⟨?_, ordered.cons fun token mem => behind token mem⟩
      rw [List.forall_mem_cons]
      refine ⟨by simp [byteSize_append], fun token mem => ?_⟩
      have far := behind token mem
      rw [byteSize_append, byteSize_append] at far
      omega

/-- No token is on an earlier line than what is in front of it. -/
theorem ordered_lines (covers : Covers before chars tokens) :
    (∀ token ∈ tokens, 1 + before.count '\n' ≤ token.span.line) ∧
      tokens.Pairwise fun earlier later => earlier.span.line ≤ later.span.line := by
  induction covers with
  | endOfFile isGap => simp [count_gap isGap]
  | @token before gap lexeme rest kind tokens isGap solid reads others ih =>
      obtain ⟨behind, ordered⟩ := ih
      have far : ∀ token ∈ tokens, 1 + (before ++ gap).count '\n' ≤ token.span.line := by
        intro token mem
        have passed : (before ++ gap ++ lexeme).count '\n' =
            (before ++ gap).count '\n' + lexeme.count '\n' := List.count_append
        have line := behind token mem
        omega
      refine ⟨List.forall_mem_cons.mpr ⟨?_, fun token mem => ?_⟩, ordered.cons far⟩
      · rw [count_gap isGap]
      · rw [← count_gap isGap]
        exact far token mem

/-- The last token stands at the end, and it is the only one without characters of its own. -/
theorem ended (covers : Covers before chars tokens) :
    ∃ (others : List Token) (last : Token), tokens = others ++ [last] ∧ last.kind = .endOfFile ∧
      last.span.start = byteSize (before ++ chars) ∧ last.span.stop = byteSize (before ++ chars) ∧
      (∀ token ∈ others, token.kind.isEndOfFile = false ∧ token.span.start < token.span.stop) ∧
      others.length ≤ chars.length := by
  induction covers with
  | endOfFile isGap => exact ⟨[], _, rfl, rfl, rfl, rfl, nofun, Nat.zero_le _⟩
  | @token before gap lexeme rest kind tokens isGap solid reads others ih =>
      obtain ⟨more, last, rfl, isLast, start, stop, plain, length⟩ := ih
      have whole : before ++ (gap ++ lexeme ++ rest) = before ++ gap ++ lexeme ++ rest := by simp
      refine ⟨_ :: more, last, rfl, isLast, whole ▸ start, whole ▸ stop, ?_, ?_⟩
      · rw [List.forall_mem_cons]
        refine ⟨⟨reads.notLast, ?_⟩, plain⟩
        have size := byteSize_pos solid
        simp only [byteSize_append] at size ⊢
        omega
      · have some := List.length_pos_iff.mpr solid
        simp only [List.length_cons, List.length_append]
        omega

end Covers

/-! ### Places in a source text -/

/-- The characters of the source between two byte offsets. -/
def textBetween (source : String) (start stop : Nat) : List Char :=
  (String.Pos.Raw.extract source ⟨start⟩ ⟨stop⟩).toList

theorem byteSize_eq_utf8Len (chars : List Char) : byteSize chars = String.utf8Len chars := by
  induction chars with
  | nil => rfl
  | cons char rest ih =>
      rw [String.utf8Len_cons, ← ih]
      simp only [byteSize, List.foldr_cons]
      omega

theorem byteSize_toList (source : String) : byteSize source.toList = source.utf8ByteSize := by
  rw [byteSize_eq_utf8Len, String.utf8Len_toList]

section Places

variable {source : String} {left middle right : List Char}

theorem textBetween_append (split : source.toList = left ++ middle ++ right) :
    textBetween source (byteSize left) (byteSize (left ++ middle)) = middle := by
  have same : source = String.ofList (left ++ middle ++ right) := by
    rw [← split, String.ofList_toList]
  rw [textBetween, same, byteSize_append, byteSize_eq_utf8Len, byteSize_eq_utf8Len,
    String.extract_of_valid, String.toList_ofList]

theorem isValid_byteSize (split : source.toList = left ++ right) :
    String.Pos.Raw.IsValid source ⟨byteSize left⟩ := by
  rw [String.Pos.Raw.isValid_iff_exists_append]
  refine ⟨String.ofList left, String.ofList right, ?_, ?_⟩
  · rw [← String.ofList_append, ← split, String.ofList_toList]
  · rw [byteSize_eq_utf8Len, String.rawEndPos_ofList]

end Places

/-- Nothing of the source is lost in the tokens: they lie in order on boundaries between
characters, what is between them is gaps, and lines are counted by the line ends alone. -/
structure Lossless (source : String) (tokens : List Token) : Prop where
  ordered : tokens.Pairwise fun earlier later => earlier.span.stop ≤ later.span.start
  onBoundaries : ∀ token ∈ tokens, token.span.start ≤ token.span.stop ∧
    String.Pos.Raw.IsValid source ⟨token.span.start⟩ ∧
    String.Pos.Raw.IsValid source ⟨token.span.stop⟩
  /-- The end of the file is the last token, and no other. -/
  ended : ∃ others last, tokens = others ++ [last] ∧ last.kind = .endOfFile ∧
    last.span.start = source.utf8ByteSize ∧ last.span.stop = source.utf8ByteSize ∧
    ∀ token ∈ others, token.kind ≠ .endOfFile ∧ token.span.start < token.span.stop
  gaps : ∀ earlier token later, tokens = earlier ++ token :: later →
    IsGap (textBetween source (stopOf 0 earlier) token.span.start) ∧
    (token.spaceBefore = true ↔ stopOf 0 earlier < token.span.start)
  lineEnds : ∀ token ∈ tokens,
    ('\n' ∈ textBetween source token.span.start token.span.stop ↔ token.kind = .endOfLine)
  lines : ∀ token ∈ tokens,
    token.span.line = 1 + (textBetween source 0 token.span.start).count '\n'
  /-- A line number is at most that of the last line. -/
  lines_le : ∀ token ∈ tokens, token.span.line ≤ 1 + source.toList.count '\n'
  /-- Each token but the last takes at least one character. -/
  length_le : tokens.length ≤ source.length + 1

section

variable {source : String} {token : Token} {front gap lexeme rest : List Char}

namespace Sits

variable (sits : Sits source.toList token front gap lexeme rest)
include sits

theorem whole_at_start : source.toList = front ++ gap ++ (lexeme ++ rest) := by
  rw [sits.whole, List.append_assoc _ lexeme]

theorem textBetween_gap : textBetween source (byteSize front) token.span.start = gap := by
  rw [sits.start, textBetween_append sits.whole_at_start]

theorem textBetween_lexeme : textBetween source token.span.start token.span.stop = lexeme := by
  rw [sits.start, sits.stop, textBetween_append sits.whole]

theorem textBetween_zero : textBetween source 0 token.span.start = front ++ gap := by
  have whole : source.toList = [] ++ (front ++ gap) ++ (lexeme ++ rest) := sits.whole_at_start
  have read := textBetween_append whole
  rw [sits.start]
  exact read

theorem onBoundaries : token.span.start ≤ token.span.stop ∧
    String.Pos.Raw.IsValid source ⟨token.span.start⟩ ∧
    String.Pos.Raw.IsValid source ⟨token.span.stop⟩ := by
  rw [sits.start, sits.stop]
  refine ⟨?_, isValid_byteSize sits.whole_at_start, isValid_byteSize sits.whole⟩
  rw [byteSize_append _ lexeme]
  exact Nat.le_add_right _ _

theorem spaceBefore_iff : token.spaceBefore = true ↔ byteSize front < token.span.start := by
  rw [sits.spaceBefore, sits.start, byteSize_append]
  cases gap with
  | nil => simp [byteSize]
  | cons char others =>
      have size := byteSize_pos (List.cons_ne_nil char others)
      simpa using size

theorem lineEnd_iff : '\n' ∈ lexeme ↔ token.kind = .endOfLine := by
  rw [← List.count_pos_iff, sits.lineEnds, ← Kind.isEndOfLine_iff]
  cases token.kind.isEndOfLine <;> decide

theorem line_le : token.span.line ≤ 1 + source.toList.count '\n' := by
  rw [sits.line, sits.whole]
  simp only [List.count_append]
  omega

end Sits

end

/-- The tokens of a text, whatever text it is, lose nothing of it. -/
theorem lex_lossless (source : String) : Lossless source (lex source) := by
  have covers : Covers [] source.toList (lex source) := lexFrom_covers [] source.toList
  have each : ∀ token ∈ lex source, ∃ front gap lexeme rest,
      Sits source.toList token front gap lexeme rest := by
    intro token mem
    obtain ⟨earlier, later, split⟩ := List.append_of_mem mem
    obtain ⟨front, gap, lexeme, rest, sits, -⟩ := covers.sits split
    exact ⟨front, gap, lexeme, rest, sits⟩
  obtain ⟨others, last, split, isLast, start, stop, plain, length⟩ := covers.ended
  rw [List.nil_append, byteSize_toList] at start stop
  exact {
    ordered := covers.ordered.2
    onBoundaries := fun token mem => by
      obtain ⟨front, gap, lexeme, rest, sits⟩ := each token mem
      exact sits.onBoundaries
    ended := by
      refine ⟨others, last, split, isLast, start, stop, fun token mem => ⟨fun same => ?_, ?_⟩⟩
      · exact Bool.false_ne_true ((plain token mem).1.symm.trans (Kind.isEndOfFile_iff.mpr same))
      · exact (plain token mem).2
    gaps := fun earlier token later split => by
      obtain ⟨front, gap, lexeme, rest, sits, stop⟩ := covers.sits split
      rw [show stopOf 0 earlier = byteSize front from stop.symm, sits.textBetween_gap]
      exact ⟨sits.isGap, sits.spaceBefore_iff⟩
    lineEnds := fun token mem => by
      obtain ⟨front, gap, lexeme, rest, sits⟩ := each token mem
      rw [sits.textBetween_lexeme]
      exact sits.lineEnd_iff
    lines := fun token mem => by
      obtain ⟨front, gap, lexeme, rest, sits⟩ := each token mem
      rw [sits.textBetween_zero]
      exact sits.line
    lines_le := fun token mem => by
      obtain ⟨front, gap, lexeme, rest, sits⟩ := each token mem
      exact sits.line_le
    length_le := by
      rw [split, List.length_append, List.length_singleton, ← String.length_toList]
      omega }

end MiniScript.Token
