import MiniScript.Heap.Render
import MiniScript.Proofs.Number.Integer
import MiniScript.Proofs.Parser.Writing

/-!
# Reading the tokens of a text

What a text is made of is known token by token, if it is known where each token ends:
words, numbers and quoted texts end before a character that none of them goes on with.
-/

namespace MiniScript

theorem Spells.trans {first second : List Mark} {tokens middle rest : List Token}
    (before : Spells first tokens middle) (after : Spells second middle rest) :
    Spells (first ++ second) tokens rest := by
  induction first generalizing tokens with
  | nil =>
      cases before
      exact after
  | cons mark marks ih =>
      obtain ⟨token, others, split, fits, before⟩ := before
      exact ⟨token, others, split, fits, ih before⟩

namespace Token

/-- After any blanks the characters begin with the tokens that the marks ask for, and then go on
with `rest`. -/
def Lexes (chars : List Char) (marks : List Mark) (rest : List Char) : Prop :=
  ∀ blanks : List Char, (∀ char ∈ blanks, isGapChar char = true) → ∀ offset line,
    ∃ stop last, Spells marks (lexFrom (blanks ++ chars) offset line) (lexFrom rest stop last)

theorem splitGap_blanks {blanks : List Char} (gap : ∀ char ∈ blanks, isGapChar char = true)
    (chars : List Char) :
    splitGap (blanks ++ chars) = (blanks ++ (splitGap chars).1, (splitGap chars).2) := by
  induction blanks with
  | nil => rfl
  | cons blank blanks ih =>
      rw [List.forall_mem_cons] at gap
      rw [List.cons_append, splitGap.eq_def]
      dsimp only
      rw [if_pos gap.1, ih gap.2]
      rfl

theorem splitGap_solid {char : Char} (solid : isGapChar char = false) (noComment : char ≠ '/')
    (rest : List Char) : splitGap (char :: rest) = ([], char :: rest) := by
  rw [splitGap.eq_def]
  dsimp only
  rw [solid, if_neg Bool.false_ne_true]
  split
  · exact absurd rfl noComment
  · rfl

theorem lexFrom_of_splitGap {chars gap rest : List Char} {char : Char}
    (split : splitGap chars = (gap, char :: rest)) (offset line : Nat) :
    ∃ span space stop last, lexFrom chars offset line =
      ⟨(scan char rest).kind, span, space⟩ :: lexFrom (scan char rest).rest stop last := by
  have after : (splitGap chars).2 = char :: rest := congrArg Prod.snd split
  rw [lexFrom]
  split
  · rename_i empty
    rw [empty] at after
    cases after
  · rename_i first others found
    rw [found] at after
    obtain ⟨rfl, rfl⟩ := List.cons.inj after
    exact ⟨_, _, _, _, rfl⟩

namespace Lexes

theorem ofScan {char : Char} {mark : Mark} {kind : Kind} {rest lexeme others : List Char}
    (solid : isGapChar char = false) (noComment : char ≠ '/')
    (scanned : scan char rest = ⟨kind, lexeme, others⟩)
    (fits : ∀ span space, mark.Fits ⟨kind, span, space⟩) : Lexes (char :: rest) [mark] others := by
  intro blanks gap offset line
  have split : splitGap (blanks ++ char :: rest) = (blanks, char :: rest) := by
    rw [splitGap_blanks gap, splitGap_solid solid noComment, List.append_nil]
  obtain ⟨span, space, stop, last, tokens⟩ := lexFrom_of_splitGap split offset line
  rw [scanned] at tokens
  exact ⟨stop, last, _, _, tokens, fits span space, rfl⟩

theorem append {chars blanks between rest : List Char} {first second : List Mark}
    (before : Lexes chars first (blanks ++ between))
    (gap : ∀ char ∈ blanks, isGapChar char = true) (after : Lexes between second rest) :
    Lexes chars (first ++ second) rest := by
  intro earlier blank offset line
  obtain ⟨stop, last, spelled⟩ := before earlier blank offset line
  obtain ⟨stop, last, others⟩ := after blanks gap stop last
  exact ⟨stop, last, spelled.trans others⟩

/-- Without a blank in between. -/
theorem next {chars between rest : List Char} {first second : List Mark}
    (before : Lexes chars first between) (after : Lexes between second rest) :
    Lexes chars (first ++ second) rest :=
  @append chars [] between rest first second before nofun after

end Lexes

/-- The marks that stand in data, and those in front of them. -/
def dataMarks : List Char :=
  ['[', ']', '{', '}', ',', ':', '-', '=']

theorem scan_of_dataMarks {char : Char} (known : char ∈ dataMarks) (rest : List Char) :
    scan char rest = scanSymbol char rest := by
  simp only [dataMarks, List.mem_cons, List.not_mem_nil, or_false] at known
  rcases known with rfl | rfl | rfl | rfl | rfl | rfl | rfl | rfl <;> rfl

theorem scanSymbol_alone {char : Char} {mark : Symbol} (found : Symbol.ofChar? char = some mark)
    {rest : List Char} (alone : Symbol.ofCharEquals? char = none ∨ rest.head? ≠ some '=') :
    scanSymbol char rest = ⟨.symbol mark, [char], rest⟩ := by
  unfold scanSymbol
  rw [found]
  dsimp only
  split
  · rcases alone with alone | alone
    · rw [alone]
    · exact absurd rfl alone
  · rfl

/-- A mark that does not become another one by what follows. -/
theorem Lexes.mark {char : Char} {mark : Symbol} {rest : List Char} (known : char ∈ dataMarks)
    (found : Symbol.ofChar? char = some mark)
    (alone : Symbol.ofCharEquals? char = none ∨ rest.head? ≠ some '=') :
    Lexes (char :: rest) [.symbol mark] rest := by
  have solid : isGapChar char = false ∧ char ≠ '/' := by
    simp only [dataMarks, List.mem_cons, List.not_mem_nil, or_false] at known
    rcases known with rfl | rfl | rfl | rfl | rfl | rfl | rfl | rfl <;> decide
  have scanned : scan char rest = ⟨.symbol mark, [char], rest⟩ := by
    rw [scan_of_dataMarks known, scanSymbol_alone found alone]
  exact .ofScan solid.1 solid.2 scanned fun _ _ => rfl

/-- Where words, numbers and quoted texts end. -/
def Breaks (rest : List Char) : Prop :=
  ∀ char, rest.head? = some char → char ∈ [' ', ',', ':', ']', '}']

theorem Breaks.ofCons {char : Char} (breaks : char ∈ [' ', ',', ':', ']', '}'])
    (others : List Char) : Breaks (char :: others) := by
  intro first same
  cases same
  exact breaks

theorem breaks_nil : Breaks [] :=
  nofun

/-- Neither a word, a number nor a quoted text goes on with one of these. -/
theorem stops_of_mem {char : Char} (breaks : char ∈ [' ', ',', ':', ']', '}']) :
    continuesName char = false ∧ char.isDigit = false ∧ char ≠ '.' ∧
      isExponentMark char = false ∧ char ≠ '"' := by
  simp only [List.mem_cons, List.not_mem_nil, or_false] at breaks
  rcases breaks with rfl | rfl | rfl | rfl | rfl <;> decide

theorem takeWhile_breaks {more rest : List Char}
    (goesOn : ∀ char ∈ more, continuesName char = true) (breaks : Breaks rest) :
    (more ++ rest).takeWhile continuesName = more ∧
      (more ++ rest).dropWhile continuesName = rest := by
  rw [List.takeWhile_append_of_pos goesOn, List.dropWhile_append_of_pos goesOn]
  cases rest with
  | nil => simp
  | cons char others =>
      have stops := (stops_of_mem (breaks char rfl)).1
      simp [stops]

/-- A word with a lower case letter or an underscore in front. -/
theorem scan_word {char : Char} {more rest : List Char} (begins : char ∈ ['n', '_'])
    (goesOn : ∀ char ∈ more, continuesName char = true) (breaks : Breaks rest) :
    scan char (more ++ rest) = ⟨wordKind (String.ofList (char :: more)), char :: more, rest⟩ := by
  obtain ⟨taken, left⟩ := takeWhile_breaks goesOn breaks
  have word : scan char (more ++ rest) =
      ⟨wordKind (String.ofList (char :: (more ++ rest).takeWhile continuesName)),
        char :: (more ++ rest).takeWhile continuesName,
        (more ++ rest).dropWhile continuesName⟩ := by
    simp only [List.mem_cons, List.not_mem_nil, or_false] at begins
    rcases begins with rfl | rfl <;> rfl
  rw [word, taken, left]

theorem scanNumber_digits {digits rest : List Char} (all : ∀ char ∈ digits, char.isDigit = true)
    (breaks : Breaks rest) (hasPoint : Bool) :
    scanNumber hasPoint (digits ++ rest) = (digits, rest) := by
  induction digits with
  | nil =>
      cases rest with
      | nil => rfl
      | cons char others =>
          obtain ⟨_, noDigit, noPoint, noExponent, _⟩ := stops_of_mem (breaks char rfl)
          rw [List.nil_append, scanNumber.eq_def]
          dsimp only
          rw [noDigit, noExponent, beq_eq_false_iff_ne.mpr noPoint, if_neg Bool.false_ne_true]
          cases others with
          | nil => rfl
          | cons next more => rfl
  | cons digit digits ih =>
      rw [List.forall_mem_cons] at all
      rw [List.cons_append, scanNumber.eq_def]
      dsimp only
      rw [if_pos all.1, ih all.2]

theorem ne_of_isDigit {char other : Char} (digit : char.isDigit = true)
    (noDigit : other.isDigit = false) : char ≠ other := by
  rintro rfl
  cases digit.symm.trans noDigit

theorem Lexes.number (natural : Nat) {rest : List Char} (breaks : Breaks rest) :
    Lexes ((toString natural).toList ++ rest) [.number (Number.ofDecimal natural 0)] rest := by
  have read := Number.readUnsigned_toString natural
  have all := fun char => @Number.isDigit_of_mem_toString natural char
  generalize (toString natural).toList = digits at read all
  cases digits with
  | nil => cases read
  | cons digit digits =>
      rw [List.forall_mem_cons] at all
      have apart := fun {other : Char} => @ne_of_isDigit digit other all.1
      have solid : isGapChar digit = false := by
        simp [isGapChar, @apart ' ' rfl, @apart '\t' rfl, @apart '\r' rfl]
      have starts : startsNumber digit (digits ++ rest) = true := by
        unfold startsNumber
        rw [all.1, Bool.true_or]
      have scanned : scan digit (digits ++ rest) =
          ⟨.number (Number.ofDecimal natural 0), digit :: digits, rest⟩ := by
        rw [scan, if_neg (apart rfl), if_neg (apart rfl), if_pos starts,
          scanNumber_digits all.2 breaks]
        dsimp only
        rw [numberKind, read]
      exact .ofScan solid (apart rfl) scanned fun _ _ => rfl

theorem Lexes.negative (natural : Nat) {rest : List Char} (breaks : Breaks rest) :
    Lexes ('-' :: ((toString natural).toList ++ rest))
      [.symbol .minus, .number (Number.ofDecimal natural 0)] rest := by
  have digits := Lexes.number natural breaks
  have alone : ((toString natural).toList ++ rest).head? ≠ some '=' := by
    have read := Number.readUnsigned_toString natural
    have all := fun char => @Number.isDigit_of_mem_toString natural char
    generalize (toString natural).toList = digits at read all
    cases digits with
    | nil => cases read
    | cons digit digits =>
        intro same
        exact ne_of_isDigit (all digit List.mem_cons_self) rfl (Option.some.inj same)
  exact (Lexes.mark (by decide) rfl (Or.inr alone)).next digits

/-- A quote inside a text is written twice. -/
def doubled (chars : List Char) : List Char :=
  chars.flatMap fun char => if char = '"' then ['"', '"'] else [char]

theorem scanText_doubled {chars rest : List Char} (line : '\n' ∉ chars) (breaks : Breaks rest) :
    scanText (doubled chars ++ '"' :: rest) = (some chars, doubled chars ++ ['"'], rest) := by
  induction chars with
  | nil =>
      cases rest with
      | nil => rfl
      | cons char others =>
          obtain ⟨_, _, _, _, noQuote⟩ := stops_of_mem (breaks char rfl)
          show scanText ('"' :: char :: others) = _
          rw [scanText]
          · rfl
          · rintro _ same
            exact noQuote (List.cons.inj same).1
  | cons char chars ih =>
      rw [List.mem_cons, not_or] at line
      have onward := ih line.2
      by_cases quote : char = '"'
      · subst quote
        have split : doubled ('"' :: chars) = '"' :: '"' :: doubled chars := rfl
        rw [split, List.cons_append, List.cons_append, scanText, onward]
        rfl
      · have split : doubled (char :: chars) = char :: doubled chars := by
          rw [doubled, List.flatMap_cons, if_neg quote]
          rfl
        rw [split, List.cons_append, scanText, if_neg (Ne.symm line.1), onward]
        · rfl
        · rintro _ rfl
          exact absurd rfl quote
        · rintro rfl
          exact absurd rfl quote

theorem Lexes.text {text : String} {rest : List Char} (line : '\n' ∉ text.toList)
    (breaks : Breaks rest) : Lexes ((quoteText text).toList ++ rest) [.text text] rest := by
  have chars : (quoteText text).toList ++ rest = '"' :: (doubled text.toList ++ '"' :: rest) := by
    simp [quoteText, doubled]
  have scanned : scan '"' (doubled text.toList ++ '"' :: rest) =
      ⟨.text text, '"' :: (doubled text.toList ++ ['"']), rest⟩ := by
    rw [scan, if_neg (by decide), if_pos rfl, scanText_doubled line breaks]
    simp
  rw [chars]
  exact .ofScan rfl (by decide) scanned fun _ _ => rfl

theorem Lexes.null {rest : List Char} (breaks : Breaks rest) :
    Lexes ("null".toList ++ rest) [.keyword .null] rest := by
  have goesOn : ∀ char ∈ ['u', 'l', 'l'], continuesName char = true := by
    simp only [List.forall_mem_cons]
    exact ⟨rfl, rfl, rfl, List.forall_mem_nil _⟩
  have scanned : scan 'n' (['u', 'l', 'l'] ++ rest) =
      ⟨.keyword .null, ['n', 'u', 'l', 'l'], rest⟩ :=
    scan_word (by decide) goesOn breaks
  exact .ofScan rfl (by decide) scanned fun _ _ => rfl

theorem Lexes.blank {chars between rest : List Char} {first second : List Mark}
    (before : Lexes chars first (' ' :: between)) (after : Lexes between second rest) :
    Lexes chars (first ++ second) rest :=
  @Lexes.append chars [' '] between rest first second before (by simp [isGapChar]) after

/-- A row of items with commas between them, up to the bracket that closes it. -/
theorem Lexes.row {α : Type} {chars : α → List Char} {marks : α → List Mark} {items : List α}
    (each : ∀ item ∈ items, ∀ rest, Breaks rest → Lexes (chars item ++ rest) (marks item) rest)
    {close : Char} {mark : Symbol} {rest : List Char} (breaks : close ∈ [' ', ',', ':', ']', '}'])
    (closes : Lexes (close :: rest) [.symbol mark] rest) :
    Lexes ([',', ' '].intercalate (items.map chars) ++ close :: rest)
      ([.symbol .comma].intercalate (items.map marks) ++ [.symbol mark]) rest := by
  induction items with
  | nil => exact closes
  | cons item items ih =>
      rw [List.forall_mem_cons] at each
      have others := ih each.2
      cases items with
      | nil =>
          have first := each.1 (close :: rest) (.ofCons breaks rest)
          simpa using first.next closes
      | cons next more =>
          rw [List.map_cons, List.map_cons, List.map_cons, List.map_cons,
            List.intercalate_cons_cons, List.intercalate_cons_cons] at *
          generalize [',', ' '].intercalate (chars next :: more.map chars) = left at others ⊢
          generalize [Mark.symbol .comma].intercalate (marks next :: more.map marks) = read
            at others ⊢
          have comma : Lexes (',' :: ' ' :: (left ++ close :: rest)) [.symbol .comma]
              (' ' :: (left ++ close :: rest)) := .mark (by decide) rfl (Or.inl rfl)
          have first := each.1 (',' :: ' ' :: (left ++ close :: rest)) (.ofCons (by decide) _)
          simpa using (first.next comma).blank others

end Token

end MiniScript
