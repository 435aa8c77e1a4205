/-!
# Reading decimal numbers

A decimal number is digits, at most one point among them, and an optional
exponent. It becomes the double nearest to its exact value.
-/

namespace MiniScript.Number

/-- The value of ASCII digits, most significant first. -/
def digitsValue (digits : List Char) : Nat :=
  digits.foldl (fun value digit => value * 10 + (digit.toNat - 48)) 0

/-- The double nearest to `digits * 10 ^ exponent`. Exponents far outside the range of the
doubles are decided without computing the power. -/
def ofDecimal (digits : Nat) (exponent : Int) : Float :=
  if digits = 0 then 0.0
  else
    let scale : Int := exponent + Int.ofNat (Nat.log2 digits / 3)
    if 400 < exponent then 1.0 / 0.0
    else if scale < -400 then 0.0
    else Float.ofScientific digits (exponent < 0) exponent.natAbs

structure DecimalLexeme where
  digits : List Char
  places : Nat
  exponent : Int

/-- An exponent part: nothing, or a mark, an optional sign and digits up to the end. -/
def readExponent : List Char → Option Int
  | [] => some 0
  | mark :: rest =>
      if mark = 'e' || mark = 'E' then
        let (negative, digits) :=
          match rest with
          | '-' :: digits => (true, digits)
          | '+' :: digits => (false, digits)
          | digits => (false, digits)
        if digits.isEmpty || !digits.all Char.isDigit then none
        else
          let value : Int := Int.ofNat (digitsValue digits)
          some (if negative then -value else value)
      else none

/-- Digits with at most one point and an exponent, at least one digit before it. -/
def readLexeme (text : List Char) : Option DecimalLexeme :=
  let whole := text.takeWhile Char.isDigit
  let (fraction, rest) :=
    match text.dropWhile Char.isDigit with
    | '.' :: rest => (rest.takeWhile Char.isDigit, rest.dropWhile Char.isDigit)
    | rest => ([], rest)
  if whole.isEmpty && fraction.isEmpty then none
  else (readExponent rest).map fun exponent => ⟨whole ++ fraction, fraction.length, exponent⟩

/-- The double written by `text`, which carries no sign. -/
def readUnsigned (text : List Char) : Option Float :=
  (readLexeme text).map fun lexeme =>
    ofDecimal (digitsValue lexeme.digits) (lexeme.exponent - Int.ofNat lexeme.places)

/-- The double written by `text`, which may start with a minus sign. -/
def readSigned (text : List Char) : Option Float :=
  match text with
  | '-' :: rest => (readUnsigned rest).map fun value => -value
  | rest => readUnsigned rest

end MiniScript.Number
