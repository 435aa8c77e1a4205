import MiniScript.Number.Reading
import MiniScript.Text.CharClass
import MiniScript.Text.Search
import MiniScript.Token.Basic

/-!
# Reading tokens from a text

Every scanner splits the characters in front of it into a lexeme and the rest.
A gap is blanks and comments; a lexeme is never empty, and no lexeme but that of
the line end holds a line end. Offsets and lines are read off the lexemes, so
gaps and lexemes together are the whole text.
-/

namespace MiniScript.Token

open Text (byteSize byteSize_append)

def startsName (char : Char) : Bool :=
  char == '_' || Text.isLetter char

def continuesName (char : Char) : Bool :=
  char == '_' || Text.isLetter char || Text.isNumeral char

def isGapChar (char : Char) : Bool :=
  char == ' ' || char == '\t' || char == '\r'

/-- The blanks and the comment in front of a token, and what follows them. A comment ends before
the line end, so nothing more can be skipped after it. -/
def splitGap : List Char → List Char × List Char
  | [] => ([], [])
  | char :: rest =>
      if isGapChar char then
        let (gap, after) := splitGap rest
        (char :: gap, after)
      else
        match char, rest with
        | '/', '/' :: more =>
            ('/' :: '/' :: more.takeWhile (· != '\n'), more.dropWhile (· != '\n'))
        | _, _ => ([], char :: rest)

theorem splitGap_append (chars : List Char) :
    (splitGap chars).1 ++ (splitGap chars).2 = chars := by
  induction chars with
  | nil => rfl
  | cons char rest ih =>
      unfold splitGap
      split
      · simpa using ih
      · split
        · simp [List.takeWhile_append_dropWhile]
        · rfl

/-- A token's kind with the characters it was read from and those after it. -/
structure Scanned where
  kind : Kind
  lexeme : List Char
  rest : List Char

/-- What follows an opening quote: the text meant, the characters read, and the rest. `none` for
the text when the line or the source ends before the closing quote. -/
def scanText : List Char → Option (List Char) × List Char × List Char
  | '"' :: '"' :: rest =>
      let (value, lexeme, after) := scanText rest
      (value.map ('"' :: ·), '"' :: '"' :: lexeme, after)
  | '"' :: rest => (some [], ['"'], rest)
  | [] => (none, [], [])
  | char :: rest =>
      if char = '\n' then (none, [], char :: rest)
      else
        let (value, lexeme, after) := scanText rest
        (value.map (char :: ·), char :: lexeme, after)

theorem scanText_append (chars : List Char) :
    (scanText chars).2.1 ++ (scanText chars).2.2 = chars := by
  fun_induction scanText chars <;> simp_all

def isSign (char : Char) : Bool :=
  char == '-' || char == '+'

def isExponentMark (char : Char) : Bool :=
  char == 'e' || char == 'E'

/-- The characters of a number: digits, one point before a digit, and exponent marks before a digit
or a sign. -/
def scanNumber : Bool → List Char → List Char × List Char
  | _, [] => ([], [])
  | hasPoint, char :: rest =>
      if char.isDigit then
        let (lexeme, after) := scanNumber hasPoint rest
        (char :: lexeme, after)
      else
        match rest with
        | [] => ([], [char])
        | next :: more =>
            if char == '.' && !hasPoint && next.isDigit then
              let (lexeme, after) := scanNumber true more
              (char :: next :: lexeme, after)
            else if isExponentMark char && (next.isDigit || isSign next) then
              let (lexeme, after) := scanNumber hasPoint more
              (char :: next :: lexeme, after)
            else ([], char :: next :: more)

theorem scanNumber_append (hasPoint : Bool) (chars : List Char) :
    (scanNumber hasPoint chars).1 ++ (scanNumber hasPoint chars).2 = chars := by
  fun_induction scanNumber hasPoint chars <;> simp_all

/-- A lexeme that runs on past one exponent is no number; it counts as a stray point. -/
def numberKind (lexeme : List Char) : Kind :=
  match Number.readUnsigned lexeme with
  | some value => .number value
  | none => .invalid '.'

def wordKind (word : String) : Kind :=
  match Keyword.ofSpelling? word with
  | some keyword => .keyword keyword
  | none => .name word

/-- An operator of two characters if the second is an equals sign, else one character. -/
def scanSymbol (char : Char) (rest : List Char) : Scanned :=
  let single : Scanned :=
    match Symbol.ofChar? char with
    | some symbol => ⟨.symbol symbol, [char], rest⟩
    | none => ⟨.invalid char, [char], rest⟩
  match rest with
  | '=' :: more =>
      match Symbol.ofCharEquals? char with
      | some symbol => ⟨.symbol symbol, [char, '='], more⟩
      | none => single
  | _ => single

/-- Whether a number starts here: a digit, or a point before a digit. -/
def startsNumber (char : Char) (rest : List Char) : Bool :=
  char.isDigit ||
    (char == '.' &&
      match rest with
      | next :: _ => next.isDigit
      | [] => false)

/-- Reads one token that starts with `char`. -/
def scan (char : Char) (rest : List Char) : Scanned :=
  if char = '\n' then ⟨.endOfLine, [char], rest⟩
  else if char = '"' then
    match scanText rest with
    | (some value, lexeme, after) => ⟨.text (String.ofList value), char :: lexeme, after⟩
    | (none, lexeme, after) => ⟨.unterminatedText, char :: lexeme, after⟩
  else if startsNumber char rest then
    let (lexeme, after) := scanNumber (char == '.') rest
    ⟨numberKind (char :: lexeme), char :: lexeme, after⟩
  else if startsName char then
    let lexeme := char :: rest.takeWhile continuesName
    ⟨wordKind (String.ofList lexeme), lexeme, rest.dropWhile continuesName⟩
  else scanSymbol char rest

theorem scanSymbol_append (char : Char) (rest : List Char) :
    (scanSymbol char rest).lexeme ++ (scanSymbol char rest).rest = char :: rest := by
  unfold scanSymbol
  dsimp only
  split <;> split <;> try split
  all_goals rfl

theorem scan_append (char : Char) (rest : List Char) :
    (scan char rest).lexeme ++ (scan char rest).rest = char :: rest := by
  unfold scan
  split
  · rfl
  · split
    · have whole := scanText_append rest
      split <;> simp_all
    · split
      · simpa using scanNumber_append (char == '.') rest
      · split
        · simp [List.takeWhile_append_dropWhile]
        · exact scanSymbol_append char rest

theorem scanSymbol_lexeme_ne_nil (char : Char) (rest : List Char) :
    (scanSymbol char rest).lexeme ≠ [] := by
  unfold scanSymbol
  dsimp only
  split <;> split <;> try split
  all_goals simp

theorem scan_lexeme_ne_nil (char : Char) (rest : List Char) : (scan char rest).lexeme ≠ [] := by
  unfold scan
  split
  · simp
  · split
    · split <;> simp
    · split
      · simp
      · split
        · simp
        · exact scanSymbol_lexeme_ne_nil char rest

theorem scan_rest_length (char : Char) (rest : List Char) :
    (scan char rest).rest.length < (char :: rest).length := by
  have whole := congrArg List.length (scan_append char rest)
  have positive := List.length_pos_iff.mpr (scan_lexeme_ne_nil char rest)
  rw [List.length_append] at whole
  omega

theorem splitGap_rest_length (chars : List Char) :
    (splitGap chars).2.length ≤ chars.length := by
  have whole := congrArg List.length (splitGap_append chars)
  rw [List.length_append] at whole
  omega

/-- The tokens of `chars`, which start at byte `offset` on line `line`. -/
def lexFrom (chars : List Char) (offset line : Nat) : List Token :=
  match after : (splitGap chars).2 with
  | [] =>
      let start := offset + byteSize (splitGap chars).1
      [⟨.endOfFile, ⟨start, start, line⟩, !(splitGap chars).1.isEmpty⟩]
  | char :: rest =>
      let start := offset + byteSize (splitGap chars).1
      let scanned := scan char rest
      let stop := start + byteSize scanned.lexeme
      ⟨scanned.kind, ⟨start, stop, line⟩, !(splitGap chars).1.isEmpty⟩ ::
        lexFrom scanned.rest stop (if scanned.kind.isEndOfLine then line + 1 else line)
termination_by chars.length
decreasing_by
  have shorter := scan_rest_length char rest
  have gap := splitGap_rest_length chars
  rw [after] at gap
  omega

/-- The tokens of a source text; the last one is the end of the file. -/
def lex (source : String) : List Token :=
  lexFrom source.toList 0 1

end MiniScript.Token
