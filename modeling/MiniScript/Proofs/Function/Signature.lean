import MiniScript.Function.Signature
import MiniScript.Proofs.Datum.Literal

/-!
# Signatures are read as they are shown

A signature that is shown with literal defaults can be read again. In it commas and equals signs
count only outside quotes, where a parameter has none but its own, and the parentheses around
the parameters are the first that opens and the last that closes. Zero is shown without a sign.
-/

namespace MiniScript

namespace Text

/-- The characters of the property White_Space, one by one. -/
def blankCodes : List Nat :=
  [
    0x9, 0xa, 0xb, 0xc, 0xd, 0x20, 0x85, 0xa0, 0x1680, 0x2000, 0x2001, 0x2002, 0x2003, 0x2004,
    0x2005, 0x2006, 0x2007, 0x2008, 0x2009, 0x200a, 0x2028, 0x2029, 0x202f, 0x205f, 0x3000
  ]

theorem mem_blankCodes {char : Char} (blank : isBlank char = true) :
    char.toNat ∈ blankCodes := by
  obtain ⟨range, member, low, high⟩ := exists_of_covers blank
  simp only [blankRanges, List.mem_cons, List.not_mem_nil, or_false] at member
  simp only [blankCodes, List.mem_cons, List.not_mem_nil, or_false]
  rcases member with rfl | rfl | rfl | rfl | rfl | rfl | rfl | rfl | rfl | rfl <;> omega

/-- No blank is a letter or a numeral. -/
theorem blankCodes_apart : ∀ code ∈ blankCodes,
    covers letterRanges code = false ∧ covers numeralRanges code = false := by
  decide +kernel

/-- The characters start and end with one that is no blank. -/
structure Trimmed (chars : List Char) : Prop where
  start : ∃ char, chars.head? = some char ∧ isBlank char = false
  stop : ∃ char, chars.getLast? = some char ∧ isBlank char = false

namespace Trimmed

variable {chars first second : List Char}

theorem append (trimmed : Trimmed first) (also : Trimmed second) : Trimmed (first ++ second) := by
  obtain ⟨char, starts, noBlank⟩ := trimmed.start
  obtain ⟨last, stops, solid⟩ := also.stop
  refine ⟨⟨char, ?_, noBlank⟩, last, ?_, solid⟩
  · rw [List.head?_append, starts]
    rfl
  · rw [List.getLast?_append, stops]
    rfl

theorem ofNone (some : chars ≠ []) (none : ∀ char ∈ chars, isBlank char = false) :
    Trimmed chars where
  start := ⟨chars.head some, List.head?_eq_some_head some, none _ (List.head_mem some)⟩
  stop := ⟨chars.getLast some, List.getLast?_eq_some_getLast some, none _ (List.getLast_mem some)⟩

theorem trimBlanks_eq (trimmed : Trimmed chars) : trimBlanks chars = chars := by
  obtain ⟨⟨char, starts, noBlank⟩, last, stops, solid⟩ := trimmed
  obtain ⟨rest, rfl⟩ := List.head?_eq_some_iff.mp starts
  obtain ⟨body, whole⟩ := List.getLast?_eq_some_iff.mp stops
  rw [trimBlanks, List.dropWhile_cons_of_neg (by rw [noBlank]; exact Bool.false_ne_true), whole,
    List.reverse_append, List.reverse_singleton, List.singleton_append,
    List.dropWhile_cons_of_neg (by rw [solid]; exact Bool.false_ne_true), List.reverse_cons,
    List.reverse_reverse]

/-- Something is left, whatever comes behind. -/
theorem trimBlanks_append_ne_nil (trimmed : Trimmed first) (rest : List Char) :
    trimBlanks (first ++ rest) ≠ [] := by
  obtain ⟨char, starts, noBlank⟩ := trimmed.start
  obtain ⟨others, rfl⟩ := List.head?_eq_some_iff.mp starts
  intro none
  rw [trimBlanks, List.cons_append,
    List.dropWhile_cons_of_neg (by rw [noBlank]; exact Bool.false_ne_true),
    List.reverse_eq_nil_iff, List.dropWhile_eq_nil_iff] at none
  have blank := none char (List.mem_reverse.mpr List.mem_cons_self)
  rw [noBlank] at blank
  exact nomatch blank

end Trimmed

theorem isBlank_of_isDigit {char : Char} (digit : char.isDigit = true) : isBlank char = false := by
  rw [Bool.eq_false_iff]
  intro blank
  have member := mem_blankCodes blank
  have zero : '0'.toNat = 0x30 := rfl
  have nine : '9'.toNat = 0x39 := rfl
  rw [Char.isDigit_iff_toNat, zero, nine] at digit
  simp only [blankCodes, List.mem_cons, List.not_mem_nil, or_false] at member
  omega

theorem trimBlanks_cons_blank {char : Char} (blank : isBlank char = true) (chars : List Char) :
    trimBlanks (char :: chars) = trimBlanks chars := by
  rw [trimBlanks, List.dropWhile_cons_of_pos blank, trimBlanks]

end Text

open Text Number

namespace Value

/-- Null, a string, or an integer of at most fifteen digits. -/
inductive IsLiteral : Value → Prop
  | null : IsLiteral .null
  | text (text : String) : IsLiteral (.text text)
  | integer {value : Float} {integer : Int} (known : integer? value = some integer)
      (small : integer.natAbs < 1000000000000000) : IsLiteral (.number value)

/-- The value with its sign taken away if it is zero. -/
def unsignedZero : Value → Value
  | .number value => .number (if value == 0.0 then 0.0 else value)
  | value => value

end Value

/-- The parameter as it is shown: a default that is zero has no sign. -/
def Parameter.unsignedZero (param : Parameter) : Parameter :=
  { param with default := param.default.unsignedZero }

namespace Signature

section

variable {char : Char} (continues : continuesIdentifier char = true)
include continues

theorem not_blank_of_continues : isBlank char = false := by
  rw [Bool.eq_false_iff]
  intro blank
  obtain ⟨noLetter, noNumeral⟩ := blankCodes_apart _ (mem_blankCodes blank)
  have underscore : char ≠ '_' := by
    rintro rfl
    exact absurd blank (by decide)
  simp only [continuesIdentifier, isLetter, isNumeral, noLetter, noNumeral, Bool.or_false,
    decide_eq_true_eq] at continues
  exact underscore continues

theorem ne_of_continues {other : Char} (stops : continuesIdentifier other = false) :
    char ≠ other := by
  rintro rfl
  rw [continues] at stops
  exact nomatch stops

end

/-- Every character of an identifier may continue one, and it has a first character. -/
theorem continues_of_isIdentifier {chars : List Char} (identifier : isIdentifier chars = true) :
    chars ≠ [] ∧ ∀ char ∈ chars, continuesIdentifier char = true := by
  cases chars with
  | nil => cases identifier
  | cons first rest =>
      rw [isIdentifier, Bool.and_eq_true, List.all_eq_true] at identifier
      refine ⟨List.cons_ne_nil _ _, List.forall_mem_cons.mpr ⟨?_, identifier.2⟩⟩
      rw [continuesIdentifier]
      rw [startsIdentifier] at identifier
      rw [identifier.1, Bool.true_or]

/-! ### Splitting at commas -/

/-- More characters in front of the first piece. -/
def joinFront (front : List Char) : List (List Char) → List (List Char)
  | [] => [front]
  | piece :: pieces => (front ++ piece) :: pieces

theorem joinFront_append (first second : List Char) (pieces : List (List Char)) :
    joinFront (first ++ second) pieces = joinFront first (joinFront second pieces) := by
  cases pieces with
  | nil => rfl
  | cons piece pieces => rw [joinFront, joinFront, joinFront, List.append_assoc]

/-- A character at which nothing is cut off. -/
theorem splitParams_cons {quoted : Bool} {char : Char} (goesOn : char ≠ ',' ∨ quoted = true)
    (rest : List Char) : splitParams quoted (char :: rest) =
      (splitParams (if char = '"' then !quoted else quoted) rest).map (joinFront [char]) := by
  have inside : ¬ ((decide (char = ',') && !quoted) = true) := by
    rcases goesOn with other | quoted
    · simp [other]
    · simp [quoted]
  have joins : (fun pieces : List (List Char) =>
      match pieces with
      | [] => [[char]]
      | piece :: pieces => (char :: piece) :: pieces) = joinFront [char] := by
    funext pieces
    cases pieces <;> rfl
  rw [splitParams, if_neg inside]
  exact congrArg (fun join => (splitParams _ rest).map join) joins

/-- The characters stay together, and outside of quotes they end where they began. -/
def Closed (chars : List Char) : Prop :=
  ∀ rest, splitParams false (chars ++ rest) = (splitParams false rest).map (joinFront chars)

namespace Closed

variable {chars first second : List Char}

theorem single {char : Char} (comma : char ≠ ',') (quote : char ≠ '"') : Closed [char] := by
  intro rest
  rw [List.singleton_append, splitParams_cons (Or.inl comma), if_neg quote]

theorem append (closed : Closed first) (also : Closed second) : Closed (first ++ second) := by
  intro rest
  have joins : joinFront (first ++ second) = joinFront first ∘ joinFront second :=
    funext (joinFront_append first second)
  rw [List.append_assoc, closed, also, Option.map_map, joins]

theorem cons {char : Char} (comma : char ≠ ',') (quote : char ≠ '"') (closed : Closed chars) :
    Closed (char :: chars) :=
  (single comma quote).append closed

/-- Characters, but at least one, of which none is a comma or a quote. -/
theorem ofPlain (some : chars ≠ []) (plain : ∀ char ∈ chars, char ≠ ',' ∧ char ≠ '"') :
    Closed chars := by
  induction chars with
  | nil => exact absurd rfl some
  | cons char rest ih =>
      rw [List.forall_mem_cons] at plain
      cases rest with
      | nil => exact single plain.1.1 plain.1.2
      | cons next rest => exact (ih (List.cons_ne_nil _ _) plain.2).cons plain.1.1 plain.1.2

/-- Up to the closing quote the doubled quotes of a body leave and enter it again at once. -/
theorem splitParams_doubled (body rest : List Char) :
    splitParams true (Token.doubled body ++ '"' :: rest) =
      (splitParams false rest).map (joinFront (Token.doubled body ++ ['"'])) := by
  induction body with
  | nil => exact splitParams_cons (Or.inr rfl) rest
  | cons char body ih =>
      by_cases quote : char = '"'
      · subst quote
        have twice : Token.doubled ('"' :: body) = ['"'] ++ (['"'] ++ Token.doubled body) := rfl
        have joins : joinFront (Token.doubled ('"' :: body) ++ ['"']) =
            joinFront ['"'] ∘ joinFront ['"'] ∘ joinFront (Token.doubled body ++ ['"']) := by
          funext pieces
          rw [twice, List.append_assoc, List.append_assoc, joinFront_append, joinFront_append]
          rfl
        rw [joins, ← Option.map_map, ← Option.map_map, ← ih, twice]
        refine (splitParams_cons (Or.inr rfl) _).trans ?_
        exact congrArg _ (splitParams_cons (Or.inl (by decide)) _)
      · have once : Token.doubled (char :: body) = [char] ++ Token.doubled body := by
          rw [Token.doubled, List.flatMap_cons, if_neg quote]
          rfl
        have joins : joinFront (Token.doubled (char :: body) ++ ['"']) =
            joinFront [char] ∘ joinFront (Token.doubled body ++ ['"']) := by
          funext pieces
          rw [once, List.append_assoc, joinFront_append]
          rfl
        rw [joins, ← Option.map_map, ← ih, once]
        refine (splitParams_cons (Or.inr rfl) _).trans ?_
        rw [if_neg quote]
        rfl

theorem quoted (body : List Char) : Closed ('"' :: (Token.doubled body ++ ['"'])) := by
  intro rest
  have joins : joinFront ('"' :: (Token.doubled body ++ ['"'])) =
      joinFront ['"'] ∘ joinFront (Token.doubled body ++ ['"']) :=
    funext (joinFront_append ['"'] (Token.doubled body ++ ['"']))
  rw [joins, ← Option.map_map, ← splitParams_doubled, List.cons_append, List.append_assoc]
  exact splitParams_cons (Or.inl (by decide)) _

/-- Pieces with commas between them are split into these pieces. -/
theorem splitParams_intercalate {piece : List Char} {pieces : List (List Char)}
    (closed : Closed piece) (others : ∀ other ∈ pieces, Closed other) :
    splitParams false ([','].intercalate (piece :: pieces)) = some (piece :: pieces) := by
  induction pieces generalizing piece with
  | nil =>
      have whole := closed []
      rw [List.append_nil] at whole
      rw [List.intercalate_singleton, whole]
      simp [splitParams, joinFront]
  | cons next pieces ih =>
      rw [List.forall_mem_cons] at others
      have cut (rest : List Char) :
          splitParams false (',' :: rest) = (splitParams false rest).map ([] :: ·) := rfl
      rw [List.intercalate_cons_cons, List.append_assoc, closed, List.singleton_append, cut,
        ih others.1 others.2]
      simp [joinFront]

end Closed

/-! ### Defaults -/

section

variable {digits : List Char} (some : digits ≠ []) (all : ∀ char ∈ digits, char.isDigit = true)
include some all

/-- Digits, with or without a minus sign, are in plain decimal notation. -/
theorem readNumber?_digits : readNumber? digits = readUnsigned digits ∧
    readNumber? ('-' :: digits) = (readUnsigned digits).map fun value => -value := by
  have plain : (!digits.isEmpty && digits.all (fun char => char.isDigit || decide (char = '.')) &&
      decide (digits.count '.' ≤ 1)) = true := by
    have noPoint : digits.count '.' = 0 := by
      rw [List.count_eq_zero]
      intro point
      exact absurd (all '.' point) (by decide)
    rw [noPoint, List.isEmpty_eq_false_iff.mpr some]
    simp only [Bool.not_false, Bool.true_and, Nat.zero_le, decide_true, Bool.and_true,
      List.all_eq_true]
    exact fun char member => by rw [all char member, Bool.true_or]
  obtain ⟨first, rest, rfl⟩ := List.exists_cons_of_ne_nil some
  have digit := all first List.mem_cons_self
  have noSign : first ≠ '-' := by
    rintro rfl
    exact absurd digit (by decide)
  constructor
  · have signed : readSigned (first :: rest) = readUnsigned (first :: rest) := by
      rw [readSigned]
      rintro others same
      cases same
      exact noSign rfl
    fun_cases readNumber? (first :: rest)
    · exact signed
    · rename_i digits unreadable
      have whole : digits = first :: rest := by simp [digits, noSign]
      exact absurd plain (whole ▸ unreadable)
  · fun_cases readNumber? ('-' :: first :: rest)
    · rfl
    · rename_i digits unreadable
      exact absurd plain unreadable

end

/-- An integer of at most fifteen digits is read as it is shown. -/
theorem readNumber?_display {value : Float} {integer : Int}
    (known : integer? value = some integer) (small : integer.natAbs < 1000000000000000) :
    readNumber? (display value).toList = some (ofInteger integer) := by
  have nonempty (natural : Nat) : (toString natural).toList ≠ [] := by
    have written : (toString natural).toList = Nat.toDigits 10 natural := Nat.toList_repr
    rw [written]
    exact Nat.toDigits_ne_nil
  have digits (natural : Nat) := readNumber?_digits (nonempty natural)
    fun char => @isDigit_of_mem_toString natural char
  rw [display_of_integer? known small]
  cases integer with
  | ofNat natural =>
      rw [decide_eq_false (by simp)]
      exact (digits natural).1.trans (readUnsigned_toString natural)
  | negSucc natural =>
      have minus : (signed true (toString (natural + 1))).toList =
          '-' :: (toString (natural + 1)).toList := by
        rw [signed, if_pos rfl, String.toList_append]
        rfl
      rw [decide_eq_true (Int.negSucc_lt_zero natural), Int.natAbs_negSucc, minus,
        (digits (natural + 1)).2, readUnsigned_toString]
      rfl

theorem unsignedZero_number {value : Float} {integer : Int}
    (known : integer? value = some integer) (small : integer.natAbs < 1000000000000000) :
    (Value.number value).unsignedZero = .number (ofInteger integer) := by
  have zero : integer? 0.0 = some 0 := @integer?_of_zero 0.0 .positive rfl
  rw [Value.unsignedZero, beq_of_integer? known zero]
  by_cases nonzero : integer = 0
  · subst nonzero
    rfl
  · rw [if_neg (by simpa using nonzero)]
    exact congrArg Value.number (eq_of_integer? nonzero known (integer?_ofInteger small))

/-- The characters of a string in quotes. -/
theorem toList_quoteText (text : String) :
    (quoteText text).toList = '"' :: (Token.doubled text.toList ++ ['"']) := by
  simp [quoteText, Token.doubled]

theorem readDefault?_quoteText (text : String) :
    readDefault? (quoteText text).toList = some (.text text) := by
  have opened : unquote? ('"' :: (Token.doubled text.toList ++ ['"'])) =
      some (Token.doubled text.toList) := by
    rw [unquote?, List.reverse_append, List.reverse_singleton, List.singleton_append]
    simp
  have null : "null".toList = ['n', 'u', 'l', 'l'] := rfl
  rw [toList_quoteText, readDefault?, null, if_neg (by simp), opened]
  dsimp only
  rw [Token.doubled, undouble_flatMap, String.ofList_toList]

/-- What is shown of a literal, when it is no null. -/
structure Shown (text : List Char) (value : Value) : Prop where
  read : readDefault? text = some value
  closed : Closed text
  trimmed : Trimmed text

theorem shown_text (text : String) : Shown (quoteText text).toList (.text text) where
  read := readDefault?_quoteText text
  closed := by
    rw [toList_quoteText]
    exact Closed.quoted text.toList
  trimmed := by
    rw [toList_quoteText, ← List.cons_append]
    exact ⟨⟨'"', rfl, by decide⟩, '"', List.getLast?_concat, by decide⟩

theorem shown_integer {value : Float} {integer : Int} (known : integer? value = some integer)
    (small : integer.natAbs < 1000000000000000) :
    Shown (display value).toList (.number (ofInteger integer)) := by
  have read := readNumber?_display known small
  have plain : ∀ char ∈ (display value).toList, char = '-' ∨ char.isDigit = true := by
    rw [display_of_integer? known small]
    have digits := fun char => @isDigit_of_mem_toString integer.natAbs char
    intro char member
    unfold signed at member
    split at member
    · rw [String.toList_append, List.mem_append] at member
      rcases member with minus | digit
      · exact Or.inl (List.mem_singleton.mp minus)
      · exact Or.inr (digits char digit)
    · exact Or.inr (digits char member)
  have some : (display value).toList ≠ [] := by
    intro none
    rw [none] at read
    exact nomatch read
  have apart {other : Char} (sign : other ≠ '-') (letter : other.isDigit = false) :
      ∀ char ∈ (display value).toList, char ≠ other := by
    rintro char member rfl
    rcases plain char member with minus | digit
    · exact sign minus
    · rw [letter] at digit
      exact nomatch digit
  refine ⟨?_, .ofPlain some fun char member => ⟨apart (by decide) (by decide) char member,
    apart (by decide) (by decide) char member⟩, .ofNone some fun char member => ?_⟩
  · have noQuote : unquote? (display value).toList = none := by
      obtain ⟨first, rest, split⟩ := List.exists_cons_of_ne_nil some
      rw [split, unquote?]
      rintro others same
      have quote : first = '"' := (List.cons.inj same).1
      exact apart (by decide) (by decide) first (split ▸ List.mem_cons_self) quote
    have noNull : (display value).toList ≠ "null".toList := by
      intro null
      have letter : 'n' ∈ (display value).toList := by
        rw [null]
        exact List.mem_cons_self
      exact apart (by decide) (by decide) 'n' letter rfl
    rw [readDefault?, if_neg noNull, noQuote, read]
    rfl
  · rcases plain char member with rfl | digit
    · decide
    · exact isBlank_of_isDigit digit

/-- The text of a default that is no null. -/
theorem shown_literal (heap : Heap) {value : Value} (literal : value.IsLiteral)
    (some : value.isNull = false) : Shown (heap.repr value).toList value.unsignedZero := by
  cases literal with
  | null => exact nomatch some
  | text text =>
      rw [show heap.repr (.text text) = quoteText text by
        rw [Heap.repr, Heap.reprDuring, Heap.renderWithin]]
      exact shown_text text
  | @integer value integer known small =>
      rw [unsignedZero_number known small, show heap.repr (.number value) = display value by
        rw [Heap.repr, Heap.reprDuring, Heap.renderWithin]]
      exact shown_integer known small

/-! ### Parameters -/

/-- A parameter with the name of a variable and a literal for a default. -/
structure IsPlain (param : Parameter) : Prop where
  name : isIdentifier param.name.toList = true
  default : param.default.IsLiteral

/-- A parameter as it is shown in a signature. -/
def showParam (heap : Heap) (param : Parameter) : List Char :=
  (if param.default.isNull then param.name
    else param.name ++ "=" ++ heap.repr param.default).toList

section

variable {name : List Char} (identifier : isIdentifier name = true)
include identifier

theorem closed_identifier : Closed name := by
  obtain ⟨some, continues⟩ := continues_of_isIdentifier identifier
  exact .ofPlain some fun char member =>
    ⟨ne_of_continues (continues char member) (by decide),
      ne_of_continues (continues char member) (by decide)⟩

theorem trimmed_identifier : Trimmed name := by
  obtain ⟨some, continues⟩ := continues_of_isIdentifier identifier
  exact .ofNone some fun char member => not_blank_of_continues (continues char member)

/-- A character that is not in identifiers ends one. -/
theorem takeWhile_identifier {stop : Char} (stops : continuesIdentifier stop = false)
    (rest : List Char) :
    (name ++ stop :: rest).takeWhile (· ≠ stop) = name ∧
      (name ++ stop :: rest).dropWhile (· ≠ stop) = stop :: rest := by
  have goesOn : ∀ char ∈ name, decide (char ≠ stop) = true := fun char member =>
    decide_eq_true (ne_of_continues ((continues_of_isIdentifier identifier).2 char member) stops)
  rw [List.takeWhile_append_of_pos goesOn, List.dropWhile_append_of_pos goesOn]
  simp

end

/-- What is shown of a parameter is one piece, which is read as that parameter. -/
structure ShowsParam (piece : List Char) (param : Parameter) : Prop where
  read : readParam piece = .ok param
  closed : Closed piece
  trimmed : Trimmed piece

theorem shows_showParam (heap : Heap) {param : Parameter} (plain : IsPlain param) :
    ShowsParam (showParam heap param) param.unsignedZero := by
  obtain ⟨name, default⟩ := param
  have identifier : isIdentifier name.toList = true := plain.name
  have trimmed := trimmed_identifier identifier
  obtain ⟨some, continues⟩ := continues_of_isIdentifier identifier
  unfold showParam
  dsimp only
  cases isNull : default.isNull with
  | true =>
      have null : default = .null := by
        cases default with
        | null => rfl
        | _ => exact nomatch isNull
      subst null
      have goesOn : ∀ char ∈ name.toList, decide (char ≠ '=') = true := fun char member =>
        decide_eq_true (ne_of_continues (continues char member) (by decide))
      rw [if_pos rfl]
      refine ⟨?_, closed_identifier identifier, trimmed⟩
      rw [readParam, List.isEmpty_eq_false_iff.mpr some, if_neg Bool.false_ne_true,
        List.takeWhile_eq_self_iff.mpr goesOn, List.dropWhile_eq_nil_iff.mpr goesOn,
        trimmed.trimBlanks_eq]
      dsimp only
      rw [if_pos identifier, String.ofList_toList]
      rfl
  | false =>
      have shown := shown_literal heap plain.default isNull
      rw [if_neg Bool.false_ne_true, String.toList_append, String.toList_append]
      generalize (heap.repr default).toList = text at shown
      have equals : "=".toList = ['='] := rfl
      have sign : Trimmed ['='] :=
        .ofNone (List.cons_ne_nil _ _) (List.forall_mem_singleton.mpr (by decide))
      rw [equals, List.append_assoc, List.singleton_append]
      have closed : Closed ('=' :: text) := shown.closed.cons (by decide) (by decide)
      obtain ⟨before, behind⟩ := @takeWhile_identifier _ identifier '=' (by decide) text
      refine ⟨?_, (closed_identifier identifier).append closed,
        trimmed.append (sign.append shown.trimmed)⟩
      rw [readParam, if_neg (by simp), before, behind, trimmed.trimBlanks_eq]
      dsimp only
      rw [shown.trimmed.trimBlanks_eq, shown.read]
      dsimp only
      rw [if_pos identifier, String.ofList_toList]
      rfl

/-- With a comma and a blank in between, all pieces but the first start with the blank. -/
theorem intercalate_padded (piece : List Char) (pieces : List (List Char)) :
    [',', ' '].intercalate (piece :: pieces) =
      [','].intercalate (piece :: pieces.map (' ' :: ·)) := by
  induction pieces generalizing piece with
  | nil => rfl
  | cons next pieces ih =>
      have split : [','].intercalate ((' ' :: next) :: pieces.map (' ' :: ·)) =
          ' ' :: [','].intercalate (next :: pieces.map (' ' :: ·)) := by
        cases pieces with
        | nil => rfl
        | cons other pieces => rw [List.map_cons, List.intercalate_cons_cons,
            List.intercalate_cons_cons, List.append_assoc, List.append_assoc, List.cons_append]
      rw [List.map_cons, List.intercalate_cons_cons, List.intercalate_cons_cons, ih, split]
      simp

section

variable {heap : Heap} {params : List Parameter} (plain : ∀ param ∈ params, IsPlain param)
include plain

/-- A blank in front of a piece is cut off again. -/
theorem readParams_padded :
    readParams ((params.map (showParam heap)).map (' ' :: ·)) =
      .ok (params.map Parameter.unsignedZero) := by
  induction params with
  | nil => rfl
  | cons param params ih =>
      rw [List.forall_mem_cons] at plain
      have shows := shows_showParam heap plain.1
      have padded : trimBlanks (' ' :: showParam heap param) = showParam heap param :=
        (trimBlanks_cons_blank (by decide) _).trans shows.trimmed.trimBlanks_eq
      rw [List.map_cons, List.map_cons, readParams, padded, shows.read, ih plain.2]
      rfl

/-- Between the parentheses the parameters are read that are shown there. -/
theorem readInner_shown :
    readInner ([',', ' '].intercalate (params.map (showParam heap))) =
      .ok (params.map Parameter.unsignedZero) := by
  cases params with
  | nil => rfl
  | cons param params =>
      rw [List.forall_mem_cons] at plain
      have shows := shows_showParam heap plain.1
      have closed : ∀ piece ∈ (params.map (showParam heap)).map (' ' :: ·), Closed piece := by
        simp only [List.forall_mem_map]
        intro other member
        exact (shows_showParam heap (plain.2 other member)).closed.cons (by decide) (by decide)
      have split := Closed.splitParams_intercalate shows.closed closed
      have read := @readParams_padded heap _ plain.2
      obtain ⟨rest, starts⟩ : ∃ rest, [','].intercalate (showParam heap param ::
          (params.map (showParam heap)).map (' ' :: ·)) = showParam heap param ++ rest := by
        cases params with
        | nil => exact ⟨[], by simp⟩
        | cons next params =>
            rw [List.map_cons, List.map_cons, List.intercalate_cons_cons, List.append_assoc]
            exact ⟨_, rfl⟩
      have some : (trimBlanks (showParam heap param ++ rest)).isEmpty = false :=
        List.isEmpty_eq_false_iff.mpr (shows.trimmed.trimBlanks_append_ne_nil rest)
      rw [List.map_cons, intercalate_padded, readInner, split]
      dsimp only
      rw [starts, some, if_neg Bool.false_ne_true, readParams, shows.trimmed.trimBlanks_eq,
        shows.read, read]
      rfl

end

/-- A name and, in parentheses, what is read as parameters. -/
theorem readChars_listing {name inner : List Char} {params : List Parameter}
    (identifier : isIdentifier name = true) (read : readInner inner = .ok params) :
    readChars (name ++ ('(' :: (inner ++ [')']))) = .ok ⟨String.ofList name, params⟩ := by
  obtain ⟨before, behind⟩ := @takeWhile_identifier _ identifier '(' (by decide) (inner ++ [')'])
  have known : ¬ ((!isIdentifier name) = true) := by rw [identifier]; exact Bool.false_ne_true
  have closed : (inner ++ [')']).reverse = ')' :: inner.reverse := by
    rw [List.reverse_append, List.reverse_singleton, List.singleton_append]
  rw [readChars, before, behind, (trimmed_identifier identifier).trimBlanks_eq, if_neg known]
  dsimp only
  rw [closed]
  show (readInner inner.reverse.reverse >>= fun params =>
    .ok (⟨String.ofList name, params⟩ : Signature)) = _
  rw [List.reverse_reverse, read]
  rfl

/-- A name with the parameters of a definition, as they are shown, is read as that name and these
parameters; only the sign of a default that is zero is not shown. -/
theorem read_signature (heap : Heap) {definition : Definition} {name : String}
    (identifier : isIdentifier name.toList = true)
    (plain : ∀ param ∈ definition.params, IsPlain param) :
    ∃ listing, heap.signature definition = "FUNCTION" ++ listing ∧
      read (name ++ listing) = .ok ⟨name, definition.params.map Parameter.unsignedZero⟩ := by
  let shown := ", ".intercalate (definition.params.map fun param =>
    if param.default.isNull then param.name else param.name ++ "=" ++ heap.repr param.default)
  refine ⟨"(" ++ shown ++ ")", ?_, ?_⟩
  · rw [Heap.signature, ← String.append_assoc, ← String.append_assoc]
    rfl
  · have chars : (name ++ ("(" ++ shown ++ ")")).toList = name.toList ++
        ('(' :: ([',', ' '].intercalate (definition.params.map (showParam heap)) ++ [')'])) := by
      simp only [shown, String.toList_append, String.toList_intercalate, List.map_map]
      rfl
    have listing := readChars_listing identifier (@readInner_shown heap _ plain)
    rw [← chars] at listing
    have trimmed : Trimmed (name ++ ("(" ++ shown ++ ")")).toList := by
      rw [chars]
      refine (trimmed_identifier identifier).append ⟨⟨'(', rfl, by decide⟩, ')', ?_, by decide⟩
      rw [← List.cons_append, List.getLast?_concat]
    rw [read, trimmed.trimBlanks_eq, listing, String.ofList_toList]

/-- A parameter without a default, a string with everything in it that has a meaning in signatures,
and a negative integer. -/
theorem read_signature_join :
    let params : List Parameter := [⟨"self", .null⟩, ⟨"delimiter", .text "=\",(\n)"⟩,
      ⟨"most", .number (ofInteger (-20))⟩]
    isIdentifier "join".toList = true ∧ (∀ param ∈ params, IsPlain param) ∧
      ({} : Heap).signature ⟨none, params, .builtin .join⟩ =
        "FUNCTION(self, delimiter=\"=\"\",(\n)\", most=-20)" ∧
      read "join(self, delimiter=\"=\"\",(\n)\", most=-20)" = .ok ⟨"join", params⟩ := by
  intro params
  have named : isIdentifier "join".toList = true := by decide +kernel
  have plain : ∀ param ∈ params, IsPlain param := by
    refine List.forall_mem_cons.mpr ⟨⟨by decide +kernel, .null⟩, List.forall_mem_cons.mpr
      ⟨⟨by decide +kernel, .text _⟩, List.forall_mem_singleton.mpr ⟨by decide +kernel, ?_⟩⟩⟩
    exact .integer (integer?_ofInteger (by decide)) (by decide)
  have shown : ({} : Heap).signature ⟨none, params, .builtin .join⟩ =
      "FUNCTION" ++ "(self, delimiter=\"=\"\",(\n)\", most=-20)" := by
    decide +kernel
  have minus : (Value.number (ofInteger (-20))).unsignedZero = .number (ofInteger (-20)) :=
    unsignedZero_number (integer?_ofInteger (by decide)) (by decide)
  have kept : params.map Parameter.unsignedZero = params := by
    simp only [params, List.map_cons, List.map_nil, Parameter.unsignedZero, minus]
    rfl
  obtain ⟨listing, same, done⟩ := @read_signature {} ⟨none, params, .builtin .join⟩ _ named plain
  rw [shown, String.append_right_inj] at same
  rw [← same] at done
  exact ⟨named, plain, shown, done.trans (by rw [kept])⟩

end Signature

end MiniScript
