import MiniScript.Number.Decimal

/-!
# The three ways a number is written

* `display`, for values: whole numbers in full, six decimals, or six decimals
  and an exponent.
* `plain`, for messages: the fewest digits that read back, never an exponent.
* `literal`, for trees: the fewest digits that read back, with `.0` on whole
  numbers and an exponent far from one.
-/

namespace MiniScript.Number

def zeros (count : Nat) : String :=
  String.ofList (List.replicate count '0')

/-- The decimal digits of `value`, with zeros in front up to `width`. -/
def padded (width value : Nat) : String :=
  let digits := toString value
  zeros (width - digits.length) ++ digits

/-- A fraction without the zeros at its end, and without the point when nothing is left. -/
def withFraction (whole fraction : String) : String :=
  let kept := (fraction.toList.reverse.dropWhile (· == '0')).reverse
  if kept.isEmpty then whole else whole ++ "." ++ String.ofList kept

def signed (negative : Bool) (text : String) : String :=
  if negative then "-" ++ text else text

/-- `num / den` with six decimals, the zeros at the end cut off. -/
def fixedSix (num den : Nat) : String :=
  let scaled := roundHalfEven (num * 1000000) den
  withFraction (toString (scaled / 1000000)) (padded 6 (scaled % 1000000))

/-- A sign and at least two digits. -/
def exponentText (exponent : Int) : String :=
  (if exponent < 0 then "-" else "+") ++ padded 2 exponent.natAbs

/-- `num / den` with one digit before the point, six after it, and an exponent. -/
def scientificSix (num den : Nat) : String :=
  let rounded := leadingDigits 7 num den
  let (digits, exponent) :=
    if rounded.digits = 10000000 then (1000000, rounded.exponent + 1)
    else (rounded.digits, rounded.exponent)
  withFraction (toString (digits / 1000000)) (padded 6 (digits % 1000000)) ++
    "E" ++ exponentText (exponent + 6)

/-- Whether `num / den` is below the double that is nearest to `10 ^ -6`. -/
def isTiny (num den : Nat) : Bool :=
  num * 0x1000000000000000000 < 0x10c6f7a0b5ed8d * den

/-- The text of a value: whole below `10 ^ 15` in full, six decimals from `10 ^ -6` up to
`10 ^ 10`, an exponent outside. -/
def display (value : Float) : String :=
  match decode value with
  | .nan => "NaN"
  | .infinite negative => signed negative "INF"
  | .finite negative mantissa exponent =>
      let (num, den) := quotient mantissa exponent
      if isWhole mantissa exponent && num < 1000000000000000 * den then
        signed (negative && num != 0) (toString (num / den))
      else if 10000000000 * den ≤ num || isTiny num den then
        signed negative (scientificSix num den)
      else signed negative (fixedSix num den)

/-- Digits around a point, without an exponent. -/
def positional (decimal : Decimal) : String :=
  match decimal.exponent with
  | .ofNat up => toString decimal.digits ++ zeros up
  | .negSucc down =>
      let places := down + 1
      toString (decimal.digits / Nat.pow 10 places) ++ "." ++
        padded places (decimal.digits % Nat.pow 10 places)

def plain (value : Float) : String :=
  match decode value with
  | .nan => "NaN"
  | .infinite negative => signed negative "inf"
  | .finite negative 0 _ => signed negative "0"
  | .finite negative mantissa exponent =>
      signed negative (positional (shortest .up mantissa exponent))

/-- An exponent with its sign, a plus sign included. -/
def signedExponent : Int → String
  | .ofNat up => "e+" ++ toString up
  | .negSucc down => "e-" ++ toString (down + 1)

/-- Positional from `10 ^ -5` up to `10 ^ 16`, else one digit before the point and an exponent. -/
def literalDigits (decimal : Decimal) : String :=
  let count := digitCount decimal.digits
  let point : Int := decimal.exponent + Int.ofNat count
  if 0 ≤ decimal.exponent && point ≤ 16 then positional decimal ++ ".0"
  else if -5 < point && point ≤ 16 then positional decimal
  else
    let digits := toString decimal.digits
    let tail := digits.toList.drop 1
    String.ofList (digits.toList.take 1) ++
      (if tail.isEmpty then "" else "." ++ String.ofList tail) ++
      signedExponent (point - 1)

/-- The text of a number literal; there is none for the infinities and NaN. -/
def literal (value : Float) : Option String :=
  match decode value with
  | .nan => none
  | .infinite _ => none
  | .finite negative 0 _ => some (signed negative "0.0")
  | .finite negative mantissa exponent =>
      some (signed negative (literalDigits (shortest .even mantissa exponent)))

end MiniScript.Number
