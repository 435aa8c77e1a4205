import Mathlib
import MiniScript.Proofs.Number.Sign
import MiniScript.Heap.Shape
import MiniScript.Number.Reading
import MiniScript.Number.Text

/-!
# Doubles that are integers

Which integer a double is, if it is one, is read off its parts. An integer other than
zero is only one double, so two such doubles are equal exactly if the integers are. The
decimal digits of a natural number below `2 ^ 53` are read as that number, and an
integer below `10 ^ 15` is shown in full, so what is shown is read back.
-/

namespace MiniScript.Number

open Float.Model Float.Model.UnpackedFloat

theorem toNat_packComponents (sign : Sign) (scale : BitVec 11) (fraction : BitVec 52) :
    (packComponents Format.binary64 sign scale fraction).toNat =
      sign.toBitVec.toNat * signBit + scale.toNat * hiddenBit + fraction.toNat := by
  have inner : (sign.toBitVec ++ scale).toNat = sign.toBitVec.toNat * 2 ^ 11 + scale.toNat := by
    rw [BitVec.toNat_append, ← Nat.shiftLeft_add_eq_or_of_lt scale.isLt, Nat.shiftLeft_eq]
  have outer : (packComponents Format.binary64 sign scale fraction).toNat =
      (sign.toBitVec ++ scale).toNat * 2 ^ 52 + fraction.toNat := by
    rw [packComponents]
    rw [BitVec.toNat_append, ← Nat.shiftLeft_add_eq_or_of_lt fraction.isLt, Nat.shiftLeft_eq]
  rw [outer, inner, signBit, hiddenBit]
  omega

/-- What a double stands for, by its three parts. -/
theorem ofBits_packComponents (sign : Sign) (scale : BitVec 11) (fraction : BitVec 52) :
    Dyadic.ofBits (packComponents Format.binary64 sign scale fraction).toNat =
      if scale.toNat = 2047 then
        if fraction.toNat = 0 then .infinite (sign == .negative) else .nan
      else if scale.toNat = 0 then .finite (sign == .negative) fraction.toNat (-1074)
      else .finite (sign == .negative) (hiddenBit + fraction.toNat) (scale.toNat - 1075) := by
  have small : scale.toNat < 2048 := scale.isLt
  have tiny : fraction.toNat < 4503599627370496 := fraction.isLt
  have bit : sign.toBitVec.toNat < 2 := sign.toBitVec.isLt
  have minus : (sign.toBitVec.toNat == 1) = (sign == .negative) := by cases sign <;> rfl
  rw [toNat_packComponents, ← minus]
  unfold Dyadic.ofBits
  dsimp only
  have first : (sign.toBitVec.toNat * signBit + scale.toNat * hiddenBit + fraction.toNat) /
      signBit % 2 = sign.toBitVec.toNat := by
    rw [signBit, hiddenBit]
    omega
  have second : (sign.toBitVec.toNat * signBit + scale.toNat * hiddenBit + fraction.toNat) /
      hiddenBit % 0x800 = scale.toNat := by
    rw [signBit, hiddenBit]
    omega
  have third : (sign.toBitVec.toNat * signBit + scale.toNat * hiddenBit + fraction.toNat) %
      hiddenBit = fraction.toNat := by
    rw [signBit, hiddenBit]
    omega
  rw [first, second, third]
  rfl

/-- Every double has three parts, and what it stands for is read off them. -/
theorem exists_parts (value : Float) : ∃ (sign : Sign) (scale : BitVec 11) (fraction : BitVec 52),
    bitsOf value = packComponents Format.binary64 sign scale fraction ∧
    decode value =
      if scale.toNat = 2047 then
        if fraction.toNat = 0 then .infinite (sign == .negative) else .nan
      else if scale.toNat = 0 then .finite (sign == .negative) fraction.toNat (-1074)
      else .finite (sign == .negative) (hiddenBit + fraction.toNat) (scale.toNat - 1075) := by
  have parts := (packComponents_unpackSign_unpackExponent_unpackMantissa (bitsOf value)).symm
  refine ⟨_, _, _, parts, ?_⟩
  rw [← ofBits_packComponents, ← parts]
  rfl

/-- The parts of a finite double, and how they make up its mantissa and exponent. -/
theorem finite_parts {value : Float} {negative : Bool} {mantissa : Nat} {exponent : Int}
    (finite : decode value = .finite negative mantissa exponent) :
    ∃ (sign : Sign) (scale : BitVec 11) (fraction : BitVec 52),
      bitsOf value = packComponents Format.binary64 sign scale fraction ∧
      scale.toNat ≠ 2047 ∧ (sign == .negative) = negative ∧
      (scale.toNat = 0 ∧ mantissa = fraction.toNat ∧ exponent = -1074 ∨
        scale.toNat ≠ 0 ∧ mantissa = hiddenBit + fraction.toNat ∧
          exponent = scale.toNat - 1075) := by
  obtain ⟨sign, scale, fraction, bits, decoded⟩ := exists_parts value
  refine ⟨sign, scale, fraction, bits, ?_⟩
  rw [finite] at decoded
  split at decoded
  · split at decoded <;> cases decoded
  · rename_i notAll
    split at decoded
    · rename_i none
      cases decoded
      exact ⟨notAll, rfl, Or.inl ⟨none, rfl, rfl⟩⟩
    · rename_i some
      cases decoded
      exact ⟨notAll, rfl, Or.inr ⟨some, rfl, rfl⟩⟩

theorem eq_of_decode_finite {left right : Float} {negative : Bool} {mantissa : Nat} {exponent : Int}
    (first : decode left = .finite negative mantissa exponent)
    (second : decode right = .finite negative mantissa exponent) : left = right := by
  obtain ⟨sign, scale, fraction, bits, _, minus, parts⟩ := finite_parts first
  obtain ⟨otherSign, otherScale, otherFraction, otherBits, _, otherMinus, otherParts⟩ :=
    finite_parts second
  have signs : sign = otherSign := by
    rw [← otherMinus] at minus
    cases sign <;> cases otherSign <;> first | rfl | exact nomatch minus
  have tiny : fraction.toNat < hiddenBit := fraction.isLt
  have otherTiny : otherFraction.toNat < hiddenBit := otherFraction.isLt
  have scales : scale = otherScale := BitVec.eq_of_toNat_eq (by omega)
  have fractions : fraction = otherFraction := BitVec.eq_of_toNat_eq (by omega)
  refine bitsOf_injective ?_
  rw [bits, otherBits, signs, scales, fractions]

theorem decode_canonical {value : Float} {negative : Bool} {mantissa : Nat} {exponent : Int}
    (finite : decode value = .finite negative mantissa exponent) :
    mantissa < 2 * hiddenBit ∧ -1074 ≤ exponent ∧ (mantissa < hiddenBit → exponent = -1074) := by
  obtain ⟨_, _, fraction, _, _, _, parts⟩ := finite_parts finite
  have tiny : fraction.toNat < hiddenBit := fraction.isLt
  omega

/-- Negation changes the sign of a finite double. -/
theorem decode_neg {value : Float} {negative : Bool} {mantissa : Nat} {exponent : Int}
    (finite : decode value = .finite negative mantissa exponent) :
    decode (-value) = .finite (!negative) mantissa exponent := by
  obtain ⟨sign, scale, fraction, bits, notAll, minus, parts⟩ := finite_parts finite
  have notNaN : isNaNBits (bitsOf value) = false := by
    rw [bits, isNaNBits, unpackExponent_packComponents, decide_eq_false_iff_not]
    rintro ⟨same, _⟩
    exact notAll (congrArg BitVec.toNat same)
  have turned : bitsOf (-value) = packComponents Format.binary64 (-sign) scale fraction := by
    rw [bitsOf_neg, notNaN, if_neg Bool.false_ne_true, bits]
    simp only [flipped, unpackSign_packComponents, unpackExponent_packComponents,
      unpackMantissa_packComponents, Sign.ofBitVec_toBitVec]
  have other : (-sign == Sign.negative) = !negative := by
    rw [← minus]
    cases sign <;> rfl
  have decoded : decode (-value) =
      Dyadic.ofBits (packComponents Format.binary64 (-sign) scale fraction).toNat := by
    rw [← turned]
    rfl
  rw [decoded, ofBits_packComponents, other, if_neg notAll]
  rcases parts with ⟨none, rfl, rfl⟩ | ⟨some, rfl, rfl⟩
  · rw [if_pos none]
  · rw [if_neg some]

/-- The integer that a double is, if it is one. Both zeros are zero. -/
def integer? (value : Float) : Option Int :=
  match decode value with
  | .finite negative mantissa exponent =>
      if isWhole mantissa exponent then
        some (if negative then -wholePart mantissa exponent else wholePart mantissa exponent)
      else none
  | _ => none

/-- The exact value as a rational number. -/
theorem quotient_eq (mantissa : Nat) (exponent : Int) :
    ((quotient mantissa exponent).1 : ℚ) =
      mantissa * 2 ^ exponent * (quotient mantissa exponent).2 := by
  cases exponent with
  | ofNat up => simp [quotient]
  | negSucc down =>
      have power : ((Nat.pow 2 (down + 1) : Nat) : ℚ) = 2 ^ (down + 1) := by simp
      simp only [quotient, zpow_negSucc, power]
      field_simp

theorem integer?_eq_some {value : Float} {integer : Int} :
    integer? value = some integer ↔ ∃ negative mantissa exponent,
      decode value = .finite negative mantissa exponent ∧
      isWhole mantissa exponent = true ∧ wholePart mantissa exponent = integer.natAbs ∧
      (integer ≠ 0 → (negative = true ↔ integer < 0)) := by
  unfold integer?
  constructor
  · intro known
    split at known
    · rename_i negative mantissa exponent finite
      split at known
      · rename_i whole
        refine ⟨negative, mantissa, exponent, finite, whole, ?_⟩
        cases negative with
        | false =>
            have same : (wholePart mantissa exponent : Int) = integer := Option.some.inj known
            exact ⟨by omega, fun _ => ⟨fun wrong => absurd wrong Bool.false_ne_true, by omega⟩⟩
        | true =>
            have same : -(wholePart mantissa exponent : Int) = integer := Option.some.inj known
            exact ⟨by omega, fun _ => ⟨by omega, fun _ => rfl⟩⟩
      · cases known
    · cases known
  · rintro ⟨negative, mantissa, exponent, finite, whole, size, sign⟩
    rw [finite]
    dsimp only
    rw [if_pos whole, size]
    refine congrArg some ?_
    cases negative with
    | false =>
        have positive : ¬ integer < 0 := fun below =>
          Bool.false_ne_true ((sign (by omega)).mpr below)
        show (integer.natAbs : Int) = integer
        omega
    | true =>
        have below : integer ≠ 0 → integer < 0 := fun nonzero => (sign nonzero).mp rfl
        show -(integer.natAbs : Int) = integer
        omega

theorem integer?_neg {value : Float} {integer : Int} (known : integer? value = some integer) :
    integer? (-value) = some (-integer) := by
  obtain ⟨negative, mantissa, exponent, finite, whole, size, sign⟩ := integer?_eq_some.mp known
  refine integer?_eq_some.mpr ⟨!negative, mantissa, exponent, decode_neg finite, whole, ?_, ?_⟩
  · rw [size, Int.natAbs_neg]
  · intro nonzero
    rw [Bool.not_eq_true', ← Bool.not_eq_true, sign (by omega)]
    omega

/-- The absolute value of an integer, as the rational number that its double stands for. -/
theorem natAbs_eq {mantissa natural : Nat} {exponent : Int}
    (whole : isWhole mantissa exponent = true) (size : wholePart mantissa exponent = natural) :
    (natural : ℚ) = mantissa * 2 ^ exponent := by
  have positive := quotient_den_pos mantissa exponent
  have product := wholePart_of_isWhole whole
  have cast : (natural : ℚ) * (quotient mantissa exponent).2 = (quotient mantissa exponent).1 := by
    rw [← size]
    exact_mod_cast product
  rw [quotient_eq] at cast
  exact mul_right_cancel₀ (by positivity) cast

/-- A mantissa of full length, or one at the least exponent, leaves no choice. -/
theorem canonical_unique {first second : Nat} {low high : Int} (ordered : low ≤ high)
    (short : first < 2 * hiddenBit) (least : -1074 ≤ low)
    (full : second < hiddenBit → high = -1074)
    (same : (first : ℚ) * 2 ^ low = second * 2 ^ high) : first = second ∧ low = high := by
  obtain ⟨gap, rfl⟩ : ∃ gap : Nat, high = low + gap := ⟨(high - low).toNat, by omega⟩
  have scaled : first = second * 2 ^ gap := by
    rw [zpow_add₀ (by norm_num), mul_left_comm, mul_comm] at same
    have cancelled := mul_left_cancel₀ (zpow_ne_zero low (by norm_num)) same
    exact_mod_cast cancelled
  cases gap with
  | zero => exact ⟨by omega, by omega⟩
  | succ gap =>
      have grows : second * 2 ≤ first := by
        rw [scaled, Nat.pow_succ']
        exact Nat.mul_le_mul_left second (Nat.le_mul_of_pos_right 2 (Nat.two_pow_pos gap))
      omega

/-- A double that is an integer but not zero is determined by it. -/
theorem eq_of_integer? {left right : Float} {integer : Int} (nonzero : integer ≠ 0)
    (first : integer? left = some integer) (second : integer? right = some integer) :
    left = right := by
  obtain ⟨negative, mantissa, exponent, finite, whole, size, sign⟩ := integer?_eq_some.mp first
  obtain ⟨otherNegative, otherMantissa, otherExponent, otherFinite, otherWhole, otherSize,
    otherSign⟩ := integer?_eq_some.mp second
  have signs : negative = otherNegative :=
    Bool.eq_iff_iff.mpr ((sign nonzero).trans (otherSign nonzero).symm)
  have value := natAbs_eq whole size
  have otherValue := natAbs_eq otherWhole otherSize
  obtain ⟨short, least, full⟩ := decode_canonical finite
  obtain ⟨otherShort, otherLeast, otherFull⟩ := decode_canonical otherFinite
  have same : mantissa = otherMantissa ∧ exponent = otherExponent := by
    rcases Int.le_total exponent otherExponent with ordered | ordered
    · exact canonical_unique ordered short least otherFull
        (value.symm.trans otherValue)
    · obtain ⟨mantissas, exponents⟩ := canonical_unique ordered otherShort otherLeast full
        (otherValue.symm.trans value)
      exact ⟨mantissas.symm, exponents.symm⟩
  obtain ⟨rfl, rfl⟩ := same
  subst signs
  exact eq_of_decode_finite finite otherFinite

/-- The bits of both zeros. -/
theorem integer?_of_zero {value : Float} {sign : Sign}
    (bits : bitsOf value = packedZero Format.binary64 sign) : integer? value = some 0 := by
  have decoded : decode value = .finite (sign == .negative) 0 (-1074) := by
    have read : decode value = Dyadic.ofBits (packedZero Format.binary64 sign).toNat := by
      rw [← bits]
      rfl
    rw [read, packedZero, ofBits_packComponents]
    rfl
  have nothing : (quotient 0 (-1074)).1 = 0 := rfl
  refine integer?_eq_some.mpr ⟨_, _, _, decoded, ?_, ?_, fun nonzero => absurd rfl nonzero⟩
  · rw [isWhole, nothing, Nat.zero_mod]
    rfl
  · rw [wholePart, nothing, Nat.zero_div]
    rfl

theorem bitsOf_of_integer?_zero {value : Float} (known : integer? value = some 0) :
    ∃ sign, bitsOf value = packedZero Format.binary64 sign := by
  obtain ⟨negative, mantissa, exponent, finite, whole, size, _⟩ := integer?_eq_some.mp known
  have none : mantissa = 0 := by
    have product := natAbs_eq whole size
    rw [Int.natAbs_zero, Nat.cast_zero, eq_comm, mul_eq_zero] at product
    exact_mod_cast product.resolve_right (zpow_ne_zero exponent (by norm_num))
  obtain ⟨sign, scale, fraction, bits, _, _, parts⟩ := finite_parts finite
  have empty : scale.toNat = 0 ∧ fraction.toNat = 0 := by
    rw [none, hiddenBit] at parts
    omega
  have noScale : scale = 0#11 := BitVec.eq_of_toNat_eq empty.1
  have noFraction : fraction = 0#52 := BitVec.eq_of_toNat_eq empty.2
  refine ⟨sign, ?_⟩
  rw [bits, noScale, noFraction]
  rfl

theorem not_nan_of_integer? {value : Float} {integer : Int}
    (known : integer? value = some integer) :
    bitsOf value ≠ packedNaN Format.binary64 := by
  intro bits
  have decoded : decode value = Dyadic.ofBits (packedNaN Format.binary64).toNat := by
    rw [← bits]
    rfl
  have nan : Dyadic.ofBits (packedNaN Format.binary64).toNat = .nan := by decide
  rw [integer?, decoded, nan] at known
  cases known

/-- Doubles are equal if they are the same or both zero, and not NaN. -/
theorem beq_iff_bits {left right : Float} :
    (left == right) = true ↔ bitsOf left ≠ packedNaN Format.binary64 ∧
      bitsOf right ≠ packedNaN Format.binary64 ∧ (bitsOf left = bitsOf right ∨
        (bitsOf left = packedZero Format.binary64 .positive ∧
          bitsOf right = packedZero Format.binary64 .negative) ∨
        (bitsOf left = packedZero Format.binary64 .negative ∧
          bitsOf right = packedZero Format.binary64 .positive)) :=
  unpack_beq_unpack_iff left.toModel.valid right.toModel.valid

/-- Two doubles that are integers are equal exactly if these are. -/
theorem beq_of_integer? {left right : Float} {integer other : Int}
    (first : integer? left = some integer) (second : integer? right = some other) :
    (left == right) = decide (integer = other) := by
  rw [Bool.eq_iff_iff, beq_iff_bits, decide_eq_true_iff]
  constructor
  · rintro ⟨_, _, same | ⟨zero, again⟩ | ⟨zero, again⟩⟩
    · rw [bitsOf_injective same, second] at first
      exact (Option.some.inj first).symm
    all_goals
      rw [integer?_of_zero zero] at first
      rw [integer?_of_zero again] at second
      exact (Option.some.inj first).symm.trans (Option.some.inj second)
  · rintro rfl
    refine ⟨not_nan_of_integer? first, not_nan_of_integer? second, ?_⟩
    by_cases nonzero : integer = 0
    · subst nonzero
      obtain ⟨sign, zero⟩ := bitsOf_of_integer?_zero first
      obtain ⟨otherSign, again⟩ := bitsOf_of_integer?_zero second
      rw [zero, again]
      cases sign <;> cases otherSign <;> simp
    · exact Or.inl (congrArg bitsOf (eq_of_integer? nonzero first second))

/-- An integer of at most fifteen digits is shown in full. -/
theorem display_of_integer? {value : Float} {integer : Int} (known : integer? value = some integer)
    (small : integer.natAbs < 1000000000000000) :
    display value = signed (integer < 0) (toString integer.natAbs) := by
  obtain ⟨negative, mantissa, exponent, finite, whole, size, sign⟩ := integer?_eq_some.mp known
  have positive := quotient_den_pos mantissa exponent
  have product := wholePart_of_isWhole whole
  rw [size] at product
  rw [wholePart] at size
  have below : (quotient mantissa exponent).1 <
      1000000000000000 * (quotient mantissa exponent).2 := by
    rw [← product]
    exact Nat.mul_lt_mul_of_pos_right small positive
  have minus : (negative && (quotient mantissa exponent).1 != 0) = decide (integer < 0) := by
    rw [Bool.eq_iff_iff, Bool.and_eq_true, bne_iff_ne, decide_eq_true_iff, ← product,
      Nat.mul_ne_zero_iff, Int.natAbs_ne_zero]
    constructor
    · rintro ⟨written, nonzero, _⟩
      exact (sign nonzero).mp written
    · intro below
      exact ⟨(sign (by omega)).mpr below, by omega, by omega⟩
  unfold display
  rw [finite]
  dsimp only
  rw [whole, decide_eq_true below, Bool.true_and, if_pos rfl, size, minus]

/-- Doubles that are the same integer have the same shape. -/
theorem ofNumber_of_integer? {left right : Float} {integer : Int}
    (first : integer? left = some integer) (second : integer? right = some integer) :
    Shape.ofNumber left = Shape.ofNumber right := by
  have bits : bitsOf 0.0 = packedZero Format.binary64 .positive := rfl
  have zero := integer?_of_zero bits
  unfold Shape.ofNumber
  rw [beq_of_integer? first zero, beq_of_integer? second zero]
  by_cases nonzero : integer = 0
  · rw [if_pos (decide_eq_true nonzero), if_pos (decide_eq_true nonzero)]
  · rw [eq_of_integer? nonzero first second]

theorem log2_scaled {mantissa : Nat} (low : hiddenBit ≤ mantissa)
    (high : mantissa < 2 * hiddenBit) (count : Nat) : (mantissa * 2 ^ count).log2 = 52 + count := by
  have positive := Nat.two_pow_pos count
  have lower := Nat.mul_le_mul_right (2 ^ count) low
  have upper := Nat.mul_lt_mul_of_pos_right high positive
  have nonzero : mantissa * 2 ^ count ≠ 0 := by
    rw [hiddenBit] at lower
    omega
  rw [Nat.log2_eq_iff nonzero, Nat.add_right_comm, Nat.pow_add, Nat.pow_add]
  exact ⟨lower, upper⟩

/-- Zeros at the end are shifted out without a trace. -/
theorem shiftRight_scaled (mantissa count : Nat) :
    ExtendedMantissa.mk (mantissa * 2 ^ count) false false >>> count =
      ⟨mantissa, false, false⟩ := by
  induction count generalizing mantissa with
  | zero =>
      rw [Nat.pow_zero, Nat.mul_one]
      rfl
  | succ count ih =>
      have before : ExtendedMantissa.mk (mantissa * 2 ^ (count + 1)) false false >>> count =
          ⟨mantissa * 2, false, false⟩ := by
        rw [Nat.pow_succ', ← Nat.mul_assoc]
        exact ih (mantissa * 2)
      have last : ExtendedMantissa.mk (mantissa * 2 ^ (count + 1)) false false >>> (count + 1) =
          (ExtendedMantissa.mk (mantissa * 2 ^ (count + 1)) false false >>> count).shiftRightOne :=
        rfl
      rw [last, before]
      simp [ExtendedMantissa.shiftRightOne]

/-- A mantissa of the right length is rounded to itself, however many zeros were written behind
it. -/
theorem roundWithAccuracy_scaled (sign : Sign) {mantissa : Nat} {exponent : Int}
    (low : hiddenBit ≤ mantissa) (high : mantissa < 2 * hiddenBit) (normal : -1074 ≤ exponent)
    (count : Nat) :
    roundWithAccuracy Format.binary64 sign (mantissa * 2 ^ count) (exponent - count) .exact =
      .finite sign mantissa exponent (Nat.lt_of_lt_of_le (by decide) low) := by
  have target (count : Nat) : shiftToTargetExponent Format.binary64 (mantissa * 2 ^ count)
      (exponent - count) .exact = (⟨mantissa, false, false⟩, exponent) := by
    have goal : Format.binary64.targetExponent
        (totalExponent (mantissa * 2 ^ count) (exponent - count)) = exponent := by
      have bits : (Format.binary64.mantissaBits : Int) = 53 := rfl
      have least : Format.binary64.minExponent = -1074 := rfl
      rw [totalExponent, log2_scaled low high, Format.targetExponent, bits, least]
      push_cast
      omega
    have amount : (exponent - (exponent - (count : Int))).toNat = count := by omega
    unfold shiftToTargetExponent shiftToExponent
    rw [goal]
    dsimp only
    rw [amount]
    refine Prod.ext (shiftRight_scaled mantissa count) ?_
    dsimp only
    omega
  have again := target 0
  rw [Nat.pow_zero, Nat.mul_one, Int.ofNat_zero, Int.sub_zero] at again
  unfold roundWithAccuracy
  rw [target count]
  dsimp only [ExtendedMantissa.roundedMantissa, ExtendedMantissa.accuracy,
    Accuracy.roundToNearestEven]
  rw [again]
  exact dif_neg (Nat.ne_of_gt (Nat.lt_of_lt_of_le (by decide) low))

/-- The bits of a double of full precision. -/
def normalBits (sign : Sign) (mantissa scale : Nat) : Bits :=
  packComponents Format.binary64 sign (BitVec.ofNat 11 scale) (BitVec.ofNat 52 mantissa)

theorem toNat_fraction {mantissa : Nat} (low : hiddenBit ≤ mantissa)
    (high : mantissa < 2 * hiddenBit) :
    (BitVec.ofNat 52 mantissa).toNat = mantissa - hiddenBit := by
  rw [BitVec.toNat_ofNat]
  rw [hiddenBit] at *
  omega

theorem unpack_normalBits (sign : Sign) {mantissa scale : Nat} (low : hiddenBit ≤ mantissa)
    (high : mantissa < 2 * hiddenBit) (some : 0 < scale) (few : scale < 2047) :
    UnpackedFloat.unpack Format.binary64 (normalBits sign mantissa scale) =
      .finite sign mantissa (scale - 1075) (Nat.lt_of_lt_of_le (by decide) low) := by
  have scaled : (BitVec.ofNat 11 scale).toNat = scale := by
    rw [BitVec.toNat_ofNat]
    omega
  have notAll : BitVec.ofNat 11 scale ≠ -1#11 := by
    intro same
    have := congrArg BitVec.toNat same
    rw [scaled, show (-1#11).toNat = 2047 by decide] at this
    omega
  have notNone : BitVec.ofNat 11 scale ≠ 0#11 := by
    intro same
    have := congrArg BitVec.toNat same
    rw [scaled, show (0#11).toNat = 0 by decide] at this
    omega
  have whole : (1#1 ++ BitVec.ofNat 52 mantissa).toNat = mantissa := by
    rw [BitVec.toNat_append, ← Nat.shiftLeft_add_eq_or_of_lt (BitVec.isLt _),
      toNat_fraction low high, Nat.shiftLeft_eq]
    rw [hiddenBit] at *
    have : (1#1).toNat = 1 := rfl
    omega
  unfold UnpackedFloat.unpack normalBits
  simp only [unpackSign_packComponents, unpackExponent_packComponents,
    unpackMantissa_packComponents, Sign.ofBitVec_toBitVec]
  rw [if_neg notAll, if_neg notNone]
  congr 1
  rw [scaled]
  rfl

theorem pack_normal (sign : Sign) {mantissa scale : Nat} (low : hiddenBit ≤ mantissa)
    (high : mantissa < 2 * hiddenBit) (some : 0 < scale) (few : scale < 2047) :
    UnpackedFloat.pack Format.binary64
        (.finite sign mantissa (scale - 1075) (Nat.lt_of_lt_of_le (by decide) low)) =
      normalBits sign mantissa scale := by
  have log : mantissa.log2 = 52 := by
    simpa using log2_scaled low high 0
  have biased : ((scale : Int) - 1075 + Format.binary64.exponentBias +
      Format.binary64.mantissaBitsWithoutImplicit).toNat = scale := by
    have bias : (Format.binary64.exponentBias : Int) = 1023 := rfl
    have width : (Format.binary64.mantissaBitsWithoutImplicit : Int) = 52 := rfl
    rw [bias, width]
    omega
  unfold UnpackedFloat.pack
  dsimp only
  rw [biased, log, if_neg, if_pos]
  · rfl
  · rfl
  · show ¬ 2048 ≤ scale + 1
    omega

/-- The mantissa of a positive natural number below `2 ^ 53`: zeros behind it up to the length that
a double has. -/
def mantissaOf (natural : Nat) : Nat :=
  natural * 2 ^ (52 - natural.log2)

section

variable {natural : Nat} (positive : 0 < natural) (small : natural < 2 * hiddenBit)
include positive small

theorem log2_le_of_small : natural.log2 ≤ 52 := by
  have below : natural.log2 < 53 := (Nat.log2_lt (Nat.ne_of_gt positive)).mpr small
  omega

theorem mantissaOf_bounds :
    hiddenBit ≤ mantissaOf natural ∧ mantissaOf natural < 2 * hiddenBit := by
  have length : 52 = natural.log2 + (52 - natural.log2) := by
    have := log2_le_of_small positive small
    omega
  have unit : hiddenBit = 2 ^ natural.log2 * 2 ^ (52 - natural.log2) := by
    rw [← Nat.pow_add, ← length]
    rfl
  have twice : 2 * hiddenBit = 2 ^ (natural.log2 + 1) * 2 ^ (52 - natural.log2) := by
    rw [unit, Nat.pow_succ', Nat.mul_assoc]
  rw [twice, unit, mantissaOf]
  exact ⟨Nat.mul_le_mul_right _ (Nat.log2_self_le (Nat.ne_of_gt positive)),
    Nat.mul_lt_mul_of_pos_right Nat.lt_log2_self (Nat.two_pow_pos _)⟩

theorem round_natural :
    UnpackedFloat.round Format.binary64 .positive natural 0 =
      .finite .positive (mantissaOf natural) ((natural.log2 + 1023 : Nat) - 1075)
        (Nat.lt_of_lt_of_le (by decide) (mantissaOf_bounds positive small).1) := by
  obtain ⟨low, high⟩ := mantissaOf_bounds positive small
  have short := log2_le_of_small positive small
  have target : Format.binary64.targetExponent (totalExponent natural 0) =
      ((natural.log2 + 1023 : Nat) : Int) - 1075 := by
    have bits : (Format.binary64.mantissaBits : Int) = 53 := rfl
    have least : Format.binary64.minExponent = -1074 := rfl
    rw [totalExponent, Format.targetExponent, bits, least]
    push_cast
    omega
  have lowered : decreaseExponent natural 0 (((natural.log2 + 1023 : Nat) : Int) - 1075) =
      (mantissaOf natural * 2 ^ 0, ((natural.log2 + 1023 : Nat) : Int) - 1075 - (0 : Nat)) := by
    have amount : (0 - (((natural.log2 + 1023 : Nat) : Int) - 1075)).toNat = 52 - natural.log2 := by
      push_cast
      omega
    unfold decreaseExponent
    dsimp only
    rw [amount, Nat.shiftLeft_eq, Nat.pow_zero, Nat.mul_one]
    refine Prod.ext rfl ?_
    dsimp only
    push_cast
    omega
  unfold UnpackedFloat.round
  dsimp only
  rw [target, lowered]
  exact roundWithAccuracy_scaled .positive low high (by push_cast; omega) 0

/-- The digits of a natural number below `2 ^ 53` are read without loss. -/
theorem bitsOf_ofScientific :
    bitsOf (Float.ofScientific natural false 0) =
      normalBits .positive (mantissaOf natural) (natural.log2 + 1023) := by
  obtain ⟨low, high⟩ := mantissaOf_bounds positive small
  have short := log2_le_of_small positive small
  have narrow : natural < 2 ^ 53 := small
  have word : natural.toUInt64.toNat = natural := by
    rw [Nat.toUInt64_eq, UInt64.toNat_ofNat']
    omega
  have first : bitsOf natural.toUInt64.toFloat =
      normalBits .positive (mantissaOf natural) (natural.log2 + 1023) := by
    have packed : bitsOf natural.toUInt64.toFloat = UnpackedFloat.pack Format.binary64
        (UnpackedFloat.ofNat Format.binary64 natural.toUInt64.toNat) := rfl
    have above : compare (natural : Int) 0 = .gt := Int.compare_eq_gt.mpr (by omega)
    rw [packed, word, UnpackedFloat.ofNat, UnpackedFloat.ofInt, UnpackedFloat.normalize, above]
    dsimp only
    rw [Int.toNat_natCast, round_natural positive small]
    exact pack_normal .positive low high (by omega) (by omega)
  have one : UnpackedFloat.unpack Format.binary64 (bitsOf (Float.ofBits 0x3FF0000000000000)) =
      .finite .positive (2 ^ 52) (-(52 : Nat)) (by decide) := rfl
  have product : bitsOf (Float.ofScientific natural false 0) =
      UnpackedFloat.pack Format.binary64 (UnpackedFloat.mul Format.binary64
        (UnpackedFloat.unpack Format.binary64 (bitsOf natural.toUInt64.toFloat))
        (UnpackedFloat.unpack Format.binary64 (bitsOf (Float.ofBits 0x3FF0000000000000)))) := by
    unfold Float.ofScientific
    rw [dif_pos ⟨narrow, Nat.zero_le _⟩]
    rfl
  rw [product, first, one, unpack_normalBits .positive low high (by omega) (by omega)]
  have rounded := roundWithAccuracy_scaled .positive low high
    (show -1074 ≤ ((natural.log2 + 1023 : Nat) : Int) - 1075 by push_cast; omega) 52
  rw [UnpackedFloat.mul, ← Int.sub_eq_add_neg]
  rw [show Sign.positive * Sign.positive = Sign.positive from rfl, rounded]
  exact pack_normal .positive low high (by omega) (by omega)

end

theorem quotient_mantissaOf {natural : Nat} (positive : 0 < natural)
    (small : natural < 2 * hiddenBit) :
    quotient (mantissaOf natural) ((natural.log2 + 1023 : Nat) - 1075) =
      (natural * 2 ^ (52 - natural.log2), 2 ^ (52 - natural.log2)) := by
  have short := log2_le_of_small positive small
  obtain ⟨gap, length⟩ : ∃ gap, 52 - natural.log2 = gap := ⟨_, rfl⟩
  have exponent : ((natural.log2 + 1023 : Nat) : Int) - 1075 = -(gap : Int) := by
    push_cast
    omega
  rw [exponent, mantissaOf, length]
  cases gap with
  | zero => simp [quotient]
  | succ gap => rfl

theorem ofDecimal_eq {natural : Nat} (positive : 0 < natural) :
    ofDecimal natural 0 = Float.ofScientific natural false 0 := by
  have size := Int.natCast_nonneg (natural.log2 / 3)
  unfold ofDecimal
  dsimp only
  rw [if_neg (by omega), if_neg (by omega), Int.ofNat_eq_natCast, if_neg (by omega)]
  rfl

/-- The digits of an integer are read as that integer. -/
theorem integer?_ofDecimal {natural : Nat} (small : natural < 2 * hiddenBit) :
    integer? (ofDecimal natural 0) = some natural := by
  rcases Nat.eq_zero_or_pos natural with rfl | positive
  · have zero : bitsOf (ofDecimal 0 0) = packedZero Format.binary64 .positive := rfl
    exact integer?_of_zero zero
  · obtain ⟨low, high⟩ := mantissaOf_bounds positive small
    have short := log2_le_of_small positive small
    have decoded : decode (Float.ofScientific natural false 0) =
        .finite false (mantissaOf natural) ((natural.log2 + 1023 : Nat) - 1075) := by
      have bits : decode (Float.ofScientific natural false 0) = Dyadic.ofBits
          (normalBits .positive (mantissaOf natural) (natural.log2 + 1023)).toNat := by
        rw [← bitsOf_ofScientific positive small]
        rfl
      have scale : (BitVec.ofNat 11 (natural.log2 + 1023)).toNat = natural.log2 + 1023 := by
        rw [BitVec.toNat_ofNat]
        omega
      rw [bits, normalBits, ofBits_packComponents, toNat_fraction low high, scale,
        if_neg (by omega), if_neg (by omega), Nat.add_sub_cancel' low]
      rfl
    have parts := quotient_mantissaOf positive small
    rw [ofDecimal_eq positive]
    refine integer?_eq_some.mpr ⟨false, _, _, decoded, ?_, ?_, fun _ => ⟨?_, by omega⟩⟩
    · rw [isWhole, parts]
      simp
    · rw [wholePart, parts]
      simp
    · exact fun wrong => absurd wrong Bool.false_ne_true

theorem digitsValue_toString (natural : Nat) :
    digitsValue (toString natural).toList = natural := by
  have digits : (toString natural).toList = Nat.toDigits 10 natural := Nat.toList_repr
  rw [digits]
  conv_rhs => rw [← @Nat.ofDigitChars_ten_toDigits natural, Nat.ofDigitChars_eq_foldl]
  simp only [digitsValue, Nat.mul_comm 10]
  rfl

theorem isDigit_of_mem_toString {natural : Nat} {char : Char}
    (member : char ∈ (toString natural).toList) : char.isDigit = true := by
  have digits : (toString natural).toList = Nat.toDigits 10 natural := Nat.toList_repr
  rw [digits] at member
  exact Nat.isDigit_of_mem_toDigits (by decide) (by decide) member

/-- What is written for a natural number is read as its digits. -/
theorem readUnsigned_toString (natural : Nat) :
    readUnsigned (toString natural).toList = some (ofDecimal natural 0) := by
  have digits := fun char => @isDigit_of_mem_toString natural char
  have some : (toString natural).toList ≠ [] := by
    have written : (toString natural).toList = Nat.toDigits 10 natural := Nat.toList_repr
    rw [written]
    exact Nat.toDigits_ne_nil
  have value := digitsValue_toString natural
  generalize (toString natural).toList = text at digits some value
  have all : text.takeWhile Char.isDigit = text := List.takeWhile_eq_self_iff.mpr digits
  have rest : text.dropWhile Char.isDigit = [] := List.dropWhile_eq_nil_iff.mpr digits
  have lexeme : readLexeme text = Option.some ⟨text, 0, 0⟩ := by
    unfold readLexeme
    rw [all, rest]
    dsimp only
    rw [List.isEmpty_eq_false_iff.mpr some, List.append_nil]
    rfl
  rw [readUnsigned, lexeme, Option.map_some, value]
  rfl

end MiniScript.Number
