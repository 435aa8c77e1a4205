import MiniScript.Number.Dyadic

/-!
# Whole parts and remainders

Conversions between doubles and whole numbers stop at the ends of the range of
the whole numbers, and NaN becomes zero. The remainder of a division is exact
and has the sign of the dividend.
-/

namespace MiniScript.Number

/-- The double `mantissa * 2 ^ exponent`, where that is one. -/
def ofDyadic (negative : Bool) (mantissa : Nat) (exponent : Int) : Float :=
  let sign := if negative then signBit else 0
  if mantissa = 0 then Float.ofBits (UInt64.ofNat sign)
  else
    let top : Int := Int.ofNat (Nat.log2 mantissa) + exponent
    let scale := max (top - 52) (-1074)
    let (num, den) := quotient mantissa (exponent - scale)
    let digits := num / den
    let bits :=
      if scale = -1074 && digits < hiddenBit then digits
      else (scale + 1075).toNat * hiddenBit + (digits - hiddenBit)
    Float.ofBits (UInt64.ofNat (sign + bits))

def clampInt (low high value : Int) : Int :=
  max low (min high value)

theorem clampInt_bounds {low high : Int} (value : Int) (ordered : low ≤ high) :
    low ≤ clampInt low high value ∧ clampInt low high value ≤ high := by
  unfold clampInt
  omega

/-- The least whole number of sixty-four signed bits. -/
def leastWhole : Int := -0x8000000000000000

/-- The greatest whole number of sixty-four signed bits. -/
def greatestWhole : Int := 0x7fffffffffffffff

/-- The greatest count of sixty-four bits. -/
def greatestCount : Nat := 0xffffffffffffffff

/-- The whole part of a double, toward zero, within sixty-four signed bits. -/
def toWhole (value : Float) : Int :=
  match decode value with
  | .nan => 0
  | .infinite negative => if negative then leastWhole else greatestWhole
  | .finite negative mantissa exponent =>
      let whole : Int := Int.ofNat (wholePart mantissa exponent)
      clampInt leastWhole greatestWhole (if negative then -whole else whole)

/-- The whole part of a double as a count, within sixty-four bits; zero below zero. -/
def toCount (value : Float) : Nat :=
  match decode value with
  | .nan => 0
  | .infinite negative => if negative then 0 else greatestCount
  | .finite negative mantissa exponent =>
      if negative then 0 else min greatestCount (wholePart mantissa exponent)

theorem toWhole_bounds (value : Float) :
    leastWhole ≤ toWhole value ∧ toWhole value ≤ greatestWhole := by
  unfold toWhole
  split
  · decide
  · split <;> decide
  · exact clampInt_bounds _ (by decide)

/-- The double nearest to a count. -/
def ofCount (count : Nat) : Float :=
  Float.ofNat count

/-- The greatest whole number that is not above the value. -/
def floor (value : Float) : Float :=
  match decode value with
  | .finite negative mantissa exponent =>
      if isWhole mantissa exponent then value
      else if negative then -(ofCount (wholePart mantissa exponent + 1))
      else ofCount (wholePart mantissa exponent)
  | _ => value

/-- The remainder of a division toward zero, with the sign of the dividend. -/
def remainder (dividend divisor : Float) : Float :=
  match decode dividend, decode divisor with
  | .finite negative mantissa exponent, .finite _ divisorMantissa divisorExponent =>
      if divisorMantissa = 0 then 0.0 / 0.0
      else
        let unit := min exponent divisorExponent
        let (left, _) := quotient mantissa (exponent - unit)
        let (right, _) := quotient divisorMantissa (divisorExponent - unit)
        ofDyadic negative (left % right) unit
  | .finite .., .infinite _ => dividend
  | _, _ => 0.0 / 0.0

end MiniScript.Number
