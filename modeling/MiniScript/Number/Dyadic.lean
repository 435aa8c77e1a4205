/-!
# What a double stands for

A finite double is a natural number times a power of two. Everything the library
says about the text, the whole part or the remainder of a number is computed on
that exact value.
-/

namespace MiniScript.Number

/-- The exact meaning of a double. A finite one is `mantissa * 2 ^ exponent` with a sign. -/
inductive Dyadic where
  | nan
  | infinite (negative : Bool)
  | finite (negative : Bool) (mantissa : Nat) (exponent : Int)
deriving DecidableEq, Repr

/-- The place of the sign among the bits of a double. -/
def signBit : Nat := 0x8000000000000000

/-- The bit above the fifty-two fraction bits, which a double does not store. -/
def hiddenBit : Nat := 0x10000000000000

/-- Reads the sign, the eleven exponent bits and the fifty-two fraction bits. -/
def Dyadic.ofBits (bits : Nat) : Dyadic :=
  let negative := bits / signBit % 2 == 1
  let scale := bits / hiddenBit % 0x800
  let fraction := bits % hiddenBit
  if scale = 2047 then
    if fraction = 0 then .infinite negative else .nan
  else if scale = 0 then .finite negative fraction (-1074)
  else .finite negative (hiddenBit + fraction) (Int.ofNat scale - 1075)

def decode (value : Float) : Dyadic :=
  Dyadic.ofBits value.toBits.toNat

/-- `mantissa * 2 ^ exponent` as a quotient of natural numbers. -/
def quotient (mantissa : Nat) (exponent : Int) : Nat × Nat :=
  match exponent with
  | .ofNat up => (mantissa * Nat.pow 2 up, 1)
  | .negSucc down => (mantissa, Nat.pow 2 (down + 1))

theorem quotient_den_pos (mantissa : Nat) (exponent : Int) :
    0 < (quotient mantissa exponent).2 := by
  cases exponent with
  | ofNat up => exact Nat.one_pos
  | negSucc down => exact Nat.pow_pos Nat.two_pos

/-- The whole part of `mantissa * 2 ^ exponent`. -/
def wholePart (mantissa : Nat) (exponent : Int) : Nat :=
  (quotient mantissa exponent).1 / (quotient mantissa exponent).2

/-- Whether `mantissa * 2 ^ exponent` is a natural number. -/
def isWhole (mantissa : Nat) (exponent : Int) : Bool :=
  (quotient mantissa exponent).1 % (quotient mantissa exponent).2 == 0

theorem wholePart_of_isWhole {mantissa : Nat} {exponent : Int}
    (whole : isWhole mantissa exponent = true) :
    wholePart mantissa exponent * (quotient mantissa exponent).2 =
      (quotient mantissa exponent).1 := by
  have remainder : (quotient mantissa exponent).1 % (quotient mantissa exponent).2 = 0 := by
    simpa [isWhole] using whole
  exact Nat.div_mul_cancel (Nat.dvd_of_mod_eq_zero remainder)

def isNaN (value : Float) : Bool :=
  decode value == .nan

end MiniScript.Number
