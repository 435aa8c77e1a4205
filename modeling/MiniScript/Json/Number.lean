import MiniScript.Json.Basic
import MiniScript.Number.Arithmetic
import MiniScript.Number.Reading

/-!
# The values of JSON numbers

A number is a natural number of sixty-four bits times a power of ten. Digits that
no longer fit are dropped, and the power is applied by one multiplication or
division of doubles, or two when it is very small; a number that grows beyond the
doubles has no value.
-/

namespace MiniScript.Json

/-- Appends digits to a number as long as it fits in sixty-four bits; also the digits left over. -/
def takeFitting : Nat → List Char → Nat × List Char
  | value, [] => (value, [])
  | value, digit :: rest =>
      let next := value * 10 + (digit.toNat - 48)
      if next ≤ Number.greatestCount then takeFitting next rest else (value, digit :: rest)

theorem takeFitting_le {value : Nat} (fits : value ≤ Number.greatestCount) (digits : List Char) :
    (takeFitting value digits).1 ≤ Number.greatestCount := by
  induction digits generalizing value with
  | nil => exact fits
  | cons digit rest ih =>
      simp only [takeFitting]
      split
      · exact ih ‹_›
      · exact fits

/-- The greatest power of ten that is a double. -/
def greatestPower : Nat := 308

/-- The double nearest to a power of ten. -/
def powerOfTen (exponent : Nat) : Float :=
  Number.ofDecimal 1 (Int.ofNat exponent)

def finite? (value : Float) : Option Float :=
  match Number.decode value with
  | .finite .. => some value
  | _ => none

/-- `value` times a power of ten. -/
def scaled (value : Float) : Int → Option Float
  | .ofNat up =>
      if up ≤ greatestPower then finite? (value * powerOfTen up)
      else if value == 0.0 then some value
      else none
  | .negSucc down =>
      let places := down + 1
      if places ≤ greatestPower then some (value / powerOfTen places)
      else if places ≤ 2 * greatestPower then
        some (value / powerOfTen greatestPower / powerOfTen (places - greatestPower))
      else some 0.0

/-- The value of a number without a sign. -/
def valueOf (lexeme : Number.DecimalLexeme) : Option Float :=
  let count := lexeme.digits.length - lexeme.places
  let (whole, dropped) := takeFitting 0 (lexeme.digits.take count)
  let (significand, left) := takeFitting whole (lexeme.digits.drop count)
  scaled (Number.ofCount significand)
    (lexeme.exponent + Int.ofNat dropped.length + Int.ofNat left.length - Int.ofNat lexeme.places)

/-- The double that a number stands for. -/
def toFloat? : Json → Option Float
  | .number lexeme =>
      match lexeme.toList with
      | '-' :: rest => ((Number.readLexeme rest).bind valueOf).map fun value => -value
      | rest => (Number.readLexeme rest).bind valueOf
  | _ => none

end MiniScript.Json
