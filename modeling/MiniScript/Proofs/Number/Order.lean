import MiniScript.Number.Arithmetic
import MiniScript.Proofs.Number.Integer

/-!
# The order of doubles

Doubles are compared by their signs, exponents and mantissas. A double that is above
another stands for a greater number, because no mantissa is short unless its exponent is the
least. So a double that is not above another has no greater whole part. A count below
`2 ^ 53` is a double without loss, and no count becomes NaN.
-/

namespace MiniScript.Number

open Float.Model Float.Model.UnpackedFloat

/-- What a double stands for, in the form in which doubles are compared. -/
def Dyadic.unpacked : Dyadic → UnpackedFloat
  | .nan => .notANumber
  | .infinite negative => .infinity (if negative then .negative else .positive)
  | .finite negative mantissa exponent =>
      if some : 0 < mantissa then
        .finite (if negative then .negative else .positive) mantissa exponent some
      else .zero (if negative then .negative else .positive)

theorem sign_of_negative (sign : Sign) :
    (if sign == .negative then Sign.negative else .positive) = sign := by
  cases sign <;> rfl

theorem unpack_packComponents (sign : Sign) (scale : BitVec 11) (fraction : BitVec 52) :
    UnpackedFloat.unpack Format.binary64 (packComponents Format.binary64 sign scale fraction) =
      (Dyadic.ofBits (packComponents Format.binary64 sign scale fraction).toNat).unpacked := by
  have all : scale = -1#11 ↔ scale.toNat = 2047 := BitVec.toNat_inj.symm
  have none : scale = 0#11 ↔ scale.toNat = 0 := BitVec.toNat_inj.symm
  have empty : fraction = 0#52 ↔ fraction.toNat = 0 := BitVec.toNat_inj.symm
  have whole : (1#1 ++ fraction).toNat = hiddenBit + fraction.toNat := by
    rw [BitVec.toNat_append, ← Nat.shiftLeft_add_eq_or_of_lt (BitVec.isLt _)]
    rfl
  rw [ofBits_packComponents]
  unfold UnpackedFloat.unpack
  simp only [unpackSign_packComponents, unpackExponent_packComponents,
    unpackMantissa_packComponents, Sign.ofBitVec_toBitVec]
  by_cases full : scale = -1#11
  · rw [if_pos full, if_pos (all.mp full)]
    by_cases nothing : fraction = 0#52
    · rw [if_pos nothing, if_pos (empty.mp nothing), Dyadic.unpacked, sign_of_negative]
    · rw [if_neg nothing, if_neg (mt empty.mpr nothing), Dyadic.unpacked]
  · rw [if_neg full, if_neg (mt all.mpr full)]
    by_cases least : scale = 0#11
    · rw [if_pos least, if_pos (none.mp least), Dyadic.unpacked, sign_of_negative]
      by_cases nothing : fraction = 0#52
      · rw [dif_pos nothing, dif_neg (by rw [empty.mp nothing]; decide)]
      · have some : 0 < fraction.toNat := Nat.pos_of_ne_zero (mt empty.mpr nothing)
        rw [dif_neg nothing, dif_pos some, none.mp least]
        rfl
    · have some : 0 < hiddenBit + fraction.toNat := Nat.lt_of_lt_of_le (by decide)
        (Nat.le_add_right _ _)
      rw [if_neg least, if_neg (mt none.mpr least), Dyadic.unpacked, sign_of_negative,
        dif_pos some]
      congr 1

/-- Doubles are compared as what they stand for. -/
theorem unpacked_decode (value : Float) : (decode value).unpacked = value.toModel.unpack := by
  obtain ⟨sign, scale, fraction, bits, _⟩ := exists_parts value
  have read : decode value = Dyadic.ofBits (bitsOf value).toNat := rfl
  have opened : value.toModel.unpack = UnpackedFloat.unpack Format.binary64 (bitsOf value) := rfl
  rw [read, opened, bits, unpack_packComponents]

theorem lt_iff_compare {left right : Float} :
    left < right ↔ (decode left).unpacked.compare (decode right).unpacked = some .lt := by
  rw [unpacked_decode, unpacked_decode]
  show decide (left.toModel < right.toModel) = true ↔ _
  exact decide_eq_true_iff.trans beq_iff_eq

/-- The order of two numbers is that of their exponents, then that of their mantissas. -/
theorem lexicographic_of_lt {lower upper : Nat} {low high : Int}
    (short : upper < 2 * hiddenBit) (least : -1074 ≤ high)
    (full : lower < hiddenBit → low = -1074)
    (below : (lower : ℚ) * 2 ^ low < upper * 2 ^ high) :
    low < high ∨ low = high ∧ lower < upper := by
  rcases Int.lt_trichotomy low high with ordered | rfl | ordered
  · exact Or.inl ordered
  · have positive : (0 : ℚ) < 2 ^ low := zpow_pos (by norm_num) low
    exact Or.inr ⟨rfl, by exact_mod_cast lt_of_mul_lt_mul_right below positive.le⟩
  · obtain ⟨gap, rfl⟩ : ∃ gap : Nat, low = high + (gap + 1 : Nat) :=
      ⟨(low - high - 1).toNat, by omega⟩
    have positive : (0 : ℚ) < 2 ^ high := zpow_pos (by norm_num) high
    rw [zpow_add₀ (by norm_num), mul_left_comm, mul_comm] at below
    have cancelled := lt_of_mul_lt_mul_right below positive.le
    have small : lower * 2 ^ (gap + 1) < upper := by exact_mod_cast cancelled
    have grows : lower * 2 ≤ lower * 2 ^ (gap + 1) :=
      Nat.mul_le_mul_left lower (Nat.le_self_pow (Nat.succ_ne_zero gap) 2)
    omega

/-- The whole part is the greatest natural number that is not above the value. -/
theorem wholePart_eq_floor (mantissa : Nat) (exponent : Int) :
    wholePart mantissa exponent = ⌊(mantissa : ℚ) * 2 ^ exponent⌋₊ := by
  have positive := quotient_den_pos mantissa exponent
  have nonzero : ((quotient mantissa exponent).2 : ℚ) ≠ 0 := by
    exact_mod_cast Nat.ne_of_gt positive
  rw [wholePart, ← Nat.floor_div_eq_div (K := ℚ), quotient_eq, mul_div_cancel_right₀ _ nonzero]

theorem lt_of_wholePart_lt {lower upper : Nat} {low high : Int}
    (below : wholePart lower low < wholePart upper high) :
    (lower : ℚ) * 2 ^ low < upper * 2 ^ high := by
  rw [wholePart_eq_floor, wholePart_eq_floor] at below
  exact lt_of_not_ge fun above => absurd below (Nat.not_lt.mpr (Nat.floor_mono above))

theorem toCount_le (value : Float) : toCount value ≤ greatestCount := by
  unfold toCount
  cases decode value with
  | nan => exact Nat.zero_le _
  | infinite negative => cases negative <;> decide
  | finite negative mantissa exponent =>
      cases negative with
      | true => exact Nat.zero_le _
      | false => exact Nat.min_le_left _ _

/-- Only a positive number has a whole part to count. -/
theorem positive_of_toCount {value : Float} (counted : 0 < toCount value) :
    decode value = .infinite false ∨ ∃ mantissa exponent,
      decode value = .finite false mantissa exponent ∧ 0 < mantissa ∧
      toCount value = min greatestCount (wholePart mantissa exponent) := by
  unfold toCount at counted ⊢
  cases known : decode value with
  | nan => rw [known] at counted; exact absurd counted (Nat.lt_irrefl 0)
  | infinite negative =>
      cases negative with
      | true => rw [known] at counted; exact absurd counted (Nat.lt_irrefl 0)
      | false => exact Or.inl rfl
  | finite negative mantissa exponent =>
      cases negative with
      | true => rw [known] at counted; exact absurd counted (Nat.lt_irrefl 0)
      | false =>
          refine Or.inr ⟨mantissa, exponent, rfl, Nat.pos_of_ne_zero ?_, rfl⟩
          rintro rfl
          simp [known, wholePart_eq_floor] at counted

/-- Positive numbers are compared by their values. -/
theorem compare_positive {lower upper : Nat} {low high : Int} (some : 0 < lower)
    (other : 0 < upper) (short : upper < 2 * hiddenBit) (least : -1074 ≤ high)
    (full : lower < hiddenBit → low = -1074)
    (below : (lower : ℚ) * 2 ^ low < upper * 2 ^ high) :
    UnpackedFloat.compare (.finite .positive lower low some) (.finite .positive upper high other) =
      Option.some .lt := by
  have order : (compare low high).then (compare lower upper) = .lt := by
    rcases lexicographic_of_lt short least full below with exponents | ⟨rfl, mantissas⟩
    · rw [Int.compare_eq_lt.mpr exponents]
      rfl
    · rw [Int.compare_eq_eq.mpr rfl, Nat.compare_eq_lt.mpr mantissas]
      rfl
  exact congrArg Option.some order

/-- A number with a smaller whole part is below. -/
theorem lt_of_toCount_lt {left right : Float} (number : isNaN left = false)
    (below : toCount left < toCount right) : left < right := by
  rw [lt_iff_compare]
  rw [isNaN, beq_eq_false_iff_ne] at number
  have above := positive_of_toCount (Nat.lt_of_le_of_lt (Nat.zero_le _) below)
  cases known : decode left with
  | nan => exact absurd known number
  | infinite negative =>
      cases negative with
      | true =>
          rcases above with top | ⟨upper, high, finite, some, _⟩
          · rw [top]
            rfl
          · simp [finite, Dyadic.unpacked, some, UnpackedFloat.compare]
      | false =>
          have most : toCount left = greatestCount := by
            rw [toCount, known]
            rfl
          rw [most] at below
          exact absurd below (Nat.not_lt.mpr (toCount_le right))
  | finite negative lower low =>
      rcases above with top | ⟨upper, high, finite, some, counted⟩
      · rw [top]
        simp only [Dyadic.unpacked]
        split <;> cases negative <;> rfl
      · rw [finite]
        by_cases nonzero : 0 < lower
        · simp only [Dyadic.unpacked, dif_pos some, dif_pos nonzero]
          cases negative with
          | true => rfl
          | false =>
              have small : toCount left = min greatestCount (wholePart lower low) := by
                rw [toCount, known]
                rfl
              obtain ⟨short, least, _⟩ := decode_canonical finite
              obtain ⟨_, _, full⟩ := decode_canonical known
              exact compare_positive nonzero some short least full (lt_of_wholePart_lt (by omega))
        · simp [Dyadic.unpacked, some, nonzero, UnpackedFloat.compare]

/-- A number that is not above another has no greater whole part. -/
theorem toCount_le_toCount {left right : Float} (number : isNaN right = false)
    (below : ¬ left > right) : toCount left ≤ toCount right :=
  Nat.le_of_not_lt fun above => below (lt_of_toCount_lt number above)

theorem ofCount_eq (count : Nat) : ofCount count = ofDecimal count 0 := by
  rcases Nat.eq_zero_or_pos count with rfl | positive
  · exact bitsOf_injective rfl
  · exact (ofDecimal_eq positive).symm

theorem toCount_ofCount {count : Nat} (small : count < 2 * hiddenBit) :
    toCount (ofCount count) = count := by
  obtain ⟨negative, mantissa, exponent, finite, whole, size, sign⟩ :=
    integer?_eq_some.mp (ofCount_eq count ▸ integer?_ofDecimal small)
  rw [Int.natAbs_natCast] at size
  have few : count ≤ greatestCount := Nat.le_of_lt (Nat.lt_of_lt_of_le small (by decide))
  unfold toCount
  rw [finite]
  cases negative with
  | true =>
      have zero : count = 0 := by
        by_contra nonzero
        exact absurd ((sign (by omega)).mp rfl) (by omega)
      exact zero.symm
  | false =>
      show min greatestCount (wholePart mantissa exponent) = count
      rw [size, Nat.min_eq_right few]

theorem isNaN_eq_isNaNBits (value : Float) : isNaN value = isNaNBits (bitsOf value) := by
  obtain ⟨sign, scale, fraction, bits, decoded⟩ := exists_parts value
  have all : scale = -1#11 ↔ scale.toNat = 2047 := BitVec.toNat_inj.symm
  have empty : fraction = 0#52 ↔ fraction.toNat = 0 := BitVec.toNat_inj.symm
  rw [isNaN, decoded, bits, isNaNBits, unpackExponent_packComponents,
    unpackMantissa_packComponents, Bool.eq_iff_iff, beq_iff_eq, decide_eq_true_iff]
  by_cases full : scale.toNat = 2047
  · by_cases nothing : fraction.toNat = 0
    · rw [if_pos full, if_pos nothing]
      exact ⟨nofun, fun nan => absurd (empty.mpr nothing) nan.2⟩
    · rw [if_pos full, if_neg nothing]
      exact ⟨fun _ => ⟨all.mpr full, mt empty.mp nothing⟩, fun _ => rfl⟩
  · rw [if_neg full]
    refine ⟨fun nan => ?_, fun nan => absurd (all.mp nan.1) full⟩
    split at nan <;> cases nan

/-- What a number is packed to is a number. -/
theorem isNaNBits_pack {value : UnpackedFloat} (number : value ≠ .notANumber) :
    isNaNBits (UnpackedFloat.pack Format.binary64 value) = false := by
  rw [isNaNBits, decide_eq_false_iff_not]
  rintro ⟨scale, fraction⟩
  have infinite (sign : Sign) :
      unpackMantissa (packedInfinity Format.binary64 sign) = 0#52 := by
    rw [packedInfinity, unpackMantissa_packComponents]
    rfl
  cases value with
  | notANumber => exact number rfl
  | infinity sign => exact fraction (infinite sign)
  | zero sign =>
      rw [UnpackedFloat.pack, packedZero, unpackExponent_packComponents] at scale
      exact absurd scale (by decide)
  | finite sign mantissa exponent some =>
      simp only [UnpackedFloat.pack] at scale fraction
      split at scale
      · rename_i full
        rw [if_pos full] at fraction
        exact fraction (infinite sign)
      · rename_i short
        split at scale
        · rw [unpackExponent_packComponents] at scale
          have full := congrArg BitVec.toNat scale
          rw [BitVec.toNat_ofNat, show (-1#11).toNat = 2047 by decide] at full
          omega
        · rw [unpackExponent_packComponents] at scale
          exact absurd scale (by decide)

theorem roundWithAccuracy_ne_nan (sign : Sign) (mantissa : Nat) (exponent : Int)
    (accuracy : Accuracy) :
    roundWithAccuracy Format.binary64 sign mantissa exponent accuracy ≠ .notANumber := by
  unfold roundWithAccuracy
  dsimp only
  split <;> nofun

theorem mul_ne_nan {sign other : Sign} {mantissa factor : Nat} (exponent scale : Int)
    (some : 0 < mantissa) (more : 0 < factor) :
    UnpackedFloat.mul Format.binary64 (.finite sign mantissa exponent some)
      (.finite other factor scale more) ≠ .notANumber :=
  roundWithAccuracy_ne_nan _ _ _ _

/-- No count becomes NaN. -/
theorem isNaN_ofCount (count : Nat) : isNaN (ofCount count) = false := by
  by_cases small : count < 2 * hiddenBit
  · obtain ⟨_, _, _, finite, _⟩ :=
      integer?_eq_some.mp (ofCount_eq count ▸ integer?_ofDecimal small)
    rw [isNaN, finite]
    rfl
  · have packed : bitsOf (ofCount count) = UnpackedFloat.pack Format.binary64
        (UnpackedFloat.ofScientific Format.binary64 count 0) := by
      have large : ¬ (count < 2 ^ 53 ∧ 0 ≤ 22) := fun both => small both.1
      show bitsOf (Float.ofScientific count false 0) = _
      unfold Float.ofScientific
      rw [dif_neg large]
      rfl
    rw [isNaN_eq_isNaNBits, packed]
    refine isNaNBits_pack ?_
    have nonzero : count ≠ 0 := by
      rintro rfl
      exact small (by decide)
    have inside : ¬ (0 : Int) < -((2 ^ Format.binary64.exponentBits : Int) + count.log2) := by
      have bits : Format.binary64.exponentBits = 11 := rfl
      rw [bits]
      omega
    unfold UnpackedFloat.ofScientific
    rw [dif_neg nonzero, if_neg (by decide), if_neg inside, if_pos (Int.le_refl 0)]
    exact mul_ne_nan _ _ _ _

/-! ## Equality -/

theorem beq_symm {left right : Float} (same : (left == right) = true) : (right == left) = true := by
  rw [beq_iff_bits] at same ⊢
  obtain ⟨number, other, bits⟩ := same
  exact ⟨other, number, bits.imp Eq.symm fun zeros => zeros.symm.imp And.symm And.symm⟩

/-- The parts of a double decide which doubles it is equal to. -/
theorem bitsOf_eq_or_zero {left right : Float} (same : (left == right) = true) :
    bitsOf left = bitsOf right ∨
      ∃ sign other, bitsOf left = packedZero Format.binary64 sign ∧
        bitsOf right = packedZero Format.binary64 other := by
  obtain ⟨_, _, bits | ⟨zero, again⟩ | ⟨zero, again⟩⟩ := beq_iff_bits.mp same
  · exact Or.inl bits
  · exact Or.inr ⟨_, _, zero, again⟩
  · exact Or.inr ⟨_, _, zero, again⟩

theorem beq_of_zeros {left right : Float} {sign other : Sign}
    (zero : bitsOf left = packedZero Format.binary64 sign)
    (again : bitsOf right = packedZero Format.binary64 other) : (left == right) = true := by
  rw [beq_of_integer? (integer?_of_zero zero) (integer?_of_zero again)]
  rfl

theorem beq_trans {left middle right : Float} (first : (left == middle) = true)
    (second : (middle == right) = true) : (left == right) = true := by
  rcases bitsOf_eq_or_zero first with bits | ⟨_, _, zero, isZero⟩
  · rwa [bitsOf_injective bits]
  · rcases bitsOf_eq_or_zero second with bits | ⟨_, _, _, again⟩
    · rwa [← bitsOf_injective bits]
    · exact beq_of_zeros zero again

/-- Equal doubles have the same shape, the two zeros too. -/
theorem ofNumber_of_beq {left right : Float} (same : (left == right) = true) :
    Shape.ofNumber left = Shape.ofNumber right := by
  rcases bitsOf_eq_or_zero same with bits | ⟨_, _, zero, again⟩
  · rw [bitsOf_injective bits]
  · exact ofNumber_of_integer? (integer?_of_zero zero) (integer?_of_zero again)

/-- A double is equal to itself unless it is NaN. -/
theorem beq_self (value : Float) : (value == value) = !isNaN value := by
  have only : isNaN value = true ↔ bitsOf value = packedNaN Format.binary64 := by
    rw [isNaN_eq_isNaNBits]
    constructor
    · intro nan
      rw [isNaNBits, decide_eq_true_eq] at nan
      exact value.toModel.valid.eq_packedNaN nan.1 nan.2
    · intro nan
      rw [nan, isNaNBits_packedNaN]
  rw [Bool.eq_iff_iff, beq_iff_bits, Bool.not_eq_true', ← Bool.not_eq_true, only]
  exact ⟨fun same => same.1, fun number => ⟨number, number, Or.inl rfl⟩⟩

end MiniScript.Number
