import MiniScript.Number.Dyadic

/-!
# Decimal digits of an exact value

A decimal is a natural number times a power of ten. Two selections are offered
for a positive quotient: a given number of leading digits, rounded, and the
fewest digits that still lie closer to the double than to its neighbours.
-/

namespace MiniScript.Number

/-- `num / den` to the nearest natural number; a half goes to the even neighbour. -/
def roundHalfEven (num den : Nat) : Nat :=
  let floor := num / den
  let rest := num % den
  if 2 * rest < den then floor
  else if den < 2 * rest then floor + 1
  else if floor % 2 = 0 then floor
  else floor + 1

/-- The decimal `digits * 10 ^ exponent`. -/
structure Decimal where
  digits : Nat
  exponent : Int
deriving DecidableEq, Repr

/-- The number of decimal digits of a positive natural number. -/
def digitCount (value : Nat) : Nat :=
  (Nat.toDigits 10 value).length

/-- `num / den` in units of `10 ^ exponent`, as a quotient. -/
def inUnits (num den : Nat) (exponent : Int) : Nat × Nat :=
  match exponent with
  | .ofNat up => (num, den * Nat.pow 10 up)
  | .negSucc down => (num * Nat.pow 10 (down + 1), den)

/-- The least `e` with `num / den < 10 ^ e`, for a positive quotient. -/
def decimalScale (num den : Nat) : Int :=
  let guess : Int := Int.ofNat (digitCount num) - Int.ofNat (digitCount den)
  let (scaled, unit) := inUnits num den guess
  if scaled < unit then guess else guess + 1

/-- The first `count` digits of `num / den`, the last one rounded. -/
def leadingDigits (count num den : Nat) : Decimal :=
  let exponent := decimalScale num den - Int.ofNat count
  let (scaled, unit) := inUnits num den exponent
  ⟨roundHalfEven scaled unit, exponent⟩

/-- The real numbers that a double stands for: ends in units of `2 ^ exponent / 4`. -/
structure Neighbourhood where
  low : Nat
  centre : Nat
  high : Nat
  inclusive : Bool
  exponent : Int
deriving Repr

/-- Half the way to both neighbours; below a power of two the lower one is nearer. -/
def Neighbourhood.ofFinite (mantissa : Nat) (exponent : Int) : Neighbourhood where
  low := if mantissa = hiddenBit && -1074 < exponent then 4 * mantissa - 1 else 4 * mantissa - 2
  centre := 4 * mantissa
  high := 4 * mantissa + 2
  inclusive := mantissa % 2 == 0
  exponent := exponent - 2

/-- Which of two equally near decimals is chosen. -/
inductive Tie where
  | up
  | even
deriving DecidableEq, Repr

def Neighbourhood.contains (area : Neighbourhood) (num den : Nat) : Bool :=
  let (lowNum, lowDen) := quotient area.low area.exponent
  let (highNum, highDen) := quotient area.high area.exponent
  if area.inclusive then
    lowNum * den ≤ num * lowDen && num * highDen ≤ highNum * den
  else
    lowNum * den < num * lowDen && num * highDen < highNum * den

/-- `digits * 10 ^ exponent` as a quotient. -/
def Decimal.quotient (decimal : Decimal) : Nat × Nat :=
  match decimal.exponent with
  | .ofNat up => (decimal.digits * Nat.pow 10 up, 1)
  | .negSucc down => (decimal.digits, Nat.pow 10 (down + 1))

def Neighbourhood.containsDecimal (area : Neighbourhood) (decimal : Decimal) : Bool :=
  area.contains decimal.quotient.1 decimal.quotient.2

/-- The preferred one of two decimals where both lie inside, else the one that does. -/
def Neighbourhood.choose (area : Neighbourhood) (preferAbove : Bool) (below above : Decimal) :
    Option Decimal :=
  if preferAbove && area.containsDecimal above then some above
  else if area.containsDecimal below then some below
  else if area.containsDecimal above then some above
  else none

/-- Whether `rest / unit` is nearer to one than to zero, a half decided by `tie`. -/
def roundsUp (tie : Tie) (floor rest unit : Nat) : Bool :=
  if 2 * rest < unit then false
  else if unit < 2 * rest then true
  else match tie with
    | .up => true
    | .even => floor % 2 == 1

/-- The better of the two grid points around the centre with `count` digits, if one lies inside. -/
def Neighbourhood.select (area : Neighbourhood) (tie : Tie) (count : Nat) : Option Decimal :=
  let (num, den) := Number.quotient area.centre area.exponent
  let exponent := decimalScale num den - Int.ofNat count
  let (scaled, unit) := inUnits num den exponent
  let floor := scaled / unit
  area.choose (roundsUp tie floor (scaled % unit) unit) ⟨floor, exponent⟩ ⟨floor + 1, exponent⟩

/-- The first hit among `count`, `count + 1`, … digits, trying `fuel` counts. -/
def Neighbourhood.search (area : Neighbourhood) (tie : Tie) : Nat → Nat → Option Decimal
  | 0, _ => none
  | fuel + 1, count =>
      match area.select tie count with
      | some decimal => some decimal
      | none => area.search tie fuel (count + 1)

/-- Moves the zeros at the end of the digits into the exponent. -/
def Decimal.stripZeros : Nat → Decimal → Decimal
  | 0, decimal => decimal
  | fuel + 1, decimal =>
      if decimal.digits % 10 = 0 && decimal.digits != 0 then
        Decimal.stripZeros fuel ⟨decimal.digits / 10, decimal.exponent + 1⟩
      else decimal

/-- The fewest digits that read back as `mantissa * 2 ^ exponent`, the nearest of those. -/
def shortest (tie : Tie) (mantissa : Nat) (exponent : Int) : Decimal :=
  match (Neighbourhood.ofFinite mantissa exponent).search tie 17 1 with
  | some decimal => decimal.stripZeros 18
  | none =>
      let (num, den) := quotient mantissa exponent
      leadingDigits 17 num den

end MiniScript.Number
