import Mathlib
import MiniScript.Number.Dyadic

/-!
# The sign of a number

Negation changes the sign bit of a double and nothing else, except that there is only
one NaN. So negating twice gives the number back, also when it is zero.
-/

namespace MiniScript.Number

open Float.Model Float.Model.UnpackedFloat

/-- Whether a minus sign is written in front of the number. Zero has a sign, NaN has none. -/
def isNegative (value : Float) : Bool :=
  match decode value with
  | .nan => false
  | .infinite negative => negative
  | .finite negative _ _ => negative

/-- The bits of a double, as its three parts are cut from them. -/
abbrev Bits := BitVec Format.binary64.numBits

def bitsOf (value : Float) : Bits :=
  value.toBits.toBitVec

/-- The bits with the other sign. -/
def flipped (bits : Bits) : Bits :=
  packComponents Format.binary64 (-Sign.ofBitVec (unpackSign bits)) (unpackExponent bits)
    (unpackMantissa bits)

theorem flipped_flipped (bits : Bits) : flipped (flipped bits) = bits := by
  have twice (sign : Sign) : - -sign = sign := by cases sign <;> rfl
  conv_rhs => rw [← packComponents_unpackSign_unpackExponent_unpackMantissa bits]
  simp only [flipped, unpackSign_packComponents, unpackExponent_packComponents,
    unpackMantissa_packComponents, Sign.ofBitVec_toBitVec, twice]

theorem isNaNBits_flipped (bits : Bits) : isNaNBits (flipped bits) = isNaNBits bits := by
  simp only [isNaNBits, flipped, unpackExponent_packComponents, unpackMantissa_packComponents]

theorem unpack_flipped (bits : Bits) :
    UnpackedFloat.unpack Format.binary64 (flipped bits) =
      (UnpackedFloat.unpack Format.binary64 bits).neg := by
  simp only [UnpackedFloat.unpack, flipped, unpackSign_packComponents,
    unpackExponent_packComponents, unpackMantissa_packComponents, Sign.ofBitVec_toBitVec]
  split
  · split <;> rfl
  · split
    · split <;> rfl
    · rfl

theorem bitsOf_neg (value : Float) :
    bitsOf (-value) =
      if isNaNBits (bitsOf value) then packedNaN Format.binary64 else flipped (bitsOf value) := by
  have packed : bitsOf (-value) = UnpackedFloat.pack Format.binary64
      (UnpackedFloat.unpack Format.binary64 (bitsOf value)).neg := rfl
  rw [packed, ← unpack_flipped, pack_unpack, isNaNBits_flipped]

theorem bitsOf_injective : Function.Injective bitsOf :=
  fun _ _ same => Float.toBits_inj.1 (UInt64.toBitVec_inj.1 same)

theorem neg_neg (value : Float) : - -value = value := by
  refine bitsOf_injective ?_
  rw [bitsOf_neg, bitsOf_neg]
  cases nan : isNaNBits (bitsOf value) with
  | true =>
      rw [if_pos rfl, isNaNBits_packedNaN, if_pos rfl]
      rw [isNaNBits, decide_eq_true_eq] at nan
      exact (value.toModel.valid.eq_packedNaN nan.1 nan.2).symm
  | false =>
      rw [if_neg Bool.false_ne_true, isNaNBits_flipped, nan, if_neg Bool.false_ne_true,
        flipped_flipped]

end MiniScript.Number
