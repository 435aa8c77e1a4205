import MiniScript.Proofs.Number.Order

/-!
# Counting with doubles

Below `2 ^ 53` doubles count without loss: a count is its own whole part, and the sum of two
counts is the double of their sum. The two addends are brought to one exponent, where their
mantissas are the counts with zeros behind them; rounding the sum shifts the zeros out again.
-/

namespace MiniScript.Number

open Float.Model Float.Model.UnpackedFloat

/-- The whole part of a double that is an integer is that integer. -/
theorem toWhole_of_integer? {value : Float} {integer : Int} (known : integer? value = some integer)
    (least : leastWhole ≤ integer) (greatest : integer ≤ greatestWhole) :
    toWhole value = integer := by
  obtain ⟨negative, mantissa, exponent, finite, _, size, sign⟩ := integer?_eq_some.mp known
  have whole : (if negative then -Int.ofNat (wholePart mantissa exponent)
      else Int.ofNat (wholePart mantissa exponent)) = integer := by
    rw [size, Int.ofNat_eq_natCast]
    split
    · rename_i minus
      have below : integer ≠ 0 → integer < 0 := fun nonzero => (sign nonzero).mp minus
      omega
    · rename_i plus
      have above : integer ≠ 0 → ¬ integer < 0 := fun nonzero => mt (sign nonzero).mpr plus
      omega
  unfold toWhole
  rw [finite]
  dsimp only
  rw [whole, clampInt, Int.min_eq_right greatest, Int.max_eq_right least]

theorem toWhole_ofCount {count : Nat} (small : count < 2 * hiddenBit) :
    toWhole (ofCount count) = count := by
  have known : integer? (ofCount count) = some count := ofCount_eq count ▸ integer?_ofDecimal small
  rw [hiddenBit] at small
  refine toWhole_of_integer? known ?_ ?_
  · rw [leastWhole]
    omega
  · rw [greatestWhole]
    omega

section

variable {natural : Nat} (positive : 0 < natural) (small : natural < 2 * hiddenBit)
include positive small

theorem bitsOf_ofCount :
    bitsOf (ofCount natural) = normalBits .positive (mantissaOf natural) (natural.log2 + 1023) := by
  rw [ofCount_eq, ofDecimal_eq positive]
  exact bitsOf_ofScientific positive small

theorem unpack_ofCount :
    UnpackedFloat.unpack Format.binary64 (bitsOf (ofCount natural)) =
      .finite .positive (mantissaOf natural) ((natural.log2 + 1023 : Nat) - 1075)
        (Nat.lt_of_lt_of_le (by decide) (mantissaOf_bounds positive small).1) := by
  obtain ⟨low, high⟩ := mantissaOf_bounds positive small
  have short := log2_le_of_small positive small
  rw [bitsOf_ofCount positive small]
  exact unpack_normalBits .positive low high (by omega) (by omega)

/-- Rounding shifts out the zeros behind a natural number. -/
theorem round_scaled {zeros : Nat} (enough : 52 - natural.log2 ≤ zeros) :
    UnpackedFloat.round Format.binary64 .positive (natural * 2 ^ zeros) (-(zeros : Int)) =
      .finite .positive (mantissaOf natural) ((natural.log2 + 1023 : Nat) - 1075)
        (Nat.lt_of_lt_of_le (by decide) (mantissaOf_bounds positive small).1) := by
  obtain ⟨low, high⟩ := mantissaOf_bounds positive small
  have short := log2_le_of_small positive small
  -- The mantissa that a double has is as long as this; there may be more zeros behind it.
  obtain ⟨more, rfl⟩ : ∃ more, zeros = (52 - natural.log2) + more := Nat.exists_eq_add_of_le enough
  have written : natural * 2 ^ (52 - natural.log2 + more) = mantissaOf natural * 2 ^ more := by
    rw [mantissaOf, Nat.pow_add, Nat.mul_assoc]
  have exponent : -((52 - natural.log2 + more : Nat) : Int) =
      ((natural.log2 + 1023 : Nat) : Int) - 1075 - (more : Nat) := by
    push_cast
    omega
  have target : Format.binary64.targetExponent (totalExponent (mantissaOf natural * 2 ^ more)
      (((natural.log2 + 1023 : Nat) : Int) - 1075 - (more : Nat))) =
        ((natural.log2 + 1023 : Nat) : Int) - 1075 := by
    have bits : (Format.binary64.mantissaBits : Int) = 53 := rfl
    have least : Format.binary64.minExponent = -1074 := rfl
    rw [totalExponent, log2_scaled low high, Format.targetExponent, bits, least]
    push_cast
    omega
  have kept : decreaseExponent (mantissaOf natural * 2 ^ more)
      (((natural.log2 + 1023 : Nat) : Int) - 1075 - (more : Nat))
      (((natural.log2 + 1023 : Nat) : Int) - 1075) =
        (mantissaOf natural * 2 ^ more,
          ((natural.log2 + 1023 : Nat) : Int) - 1075 - (more : Nat)) := by
    have amount : ((((natural.log2 + 1023 : Nat) : Int) - 1075 - (more : Nat)) -
        (((natural.log2 + 1023 : Nat) : Int) - 1075)).toNat = 0 := by omega
    unfold decreaseExponent
    dsimp only
    rw [amount, Nat.shiftLeft_zero, Int.ofNat_zero, Int.sub_zero]
  rw [written, exponent]
  unfold UnpackedFloat.round
  dsimp only
  rw [target, kept]
  exact roundWithAccuracy_scaled .positive low high (by push_cast; omega) more

/-- The mantissa of a count, brought to a lower exponent. -/
theorem decreaseExponent_mantissaOf {zeros : Nat} (enough : 52 - natural.log2 ≤ zeros) :
    (decreaseExponent (mantissaOf natural) (((natural.log2 + 1023 : Nat) : Int) - 1075)
      (-(zeros : Int))).1 = natural * 2 ^ zeros := by
  have short := log2_le_of_small positive small
  obtain ⟨more, rfl⟩ : ∃ more, zeros = (52 - natural.log2) + more := Nat.exists_eq_add_of_le enough
  have amount : (((natural.log2 + 1023 : Nat) : Int) - 1075 -
      (-((52 - natural.log2 + more : Nat) : Int))).toNat = more := by
    push_cast
    omega
  unfold decreaseExponent
  dsimp only
  rw [amount, Nat.shiftLeft_eq, mantissaOf, Nat.pow_add, Nat.mul_assoc]

end

/-- The sum of two positive counts, before it is packed. -/
theorem add_positive {first second : Nat} (some : 0 < first) (more : 0 < second)
    (small : first + second < 2 * hiddenBit) :
    UnpackedFloat.add Format.binary64
        (UnpackedFloat.unpack Format.binary64 (bitsOf (ofCount first)))
        (UnpackedFloat.unpack Format.binary64 (bitsOf (ofCount second))) =
      UnpackedFloat.unpack Format.binary64 (bitsOf (ofCount (first + second))) := by
  have few : first < 2 * hiddenBit := by omega
  have fewer : second < 2 * hiddenBit := by omega
  have positive : 0 < first + second := by omega
  have short := log2_le_of_small some few
  have shorter := log2_le_of_small more fewer
  -- The addend with the longer row of zeros decides on the exponent.
  obtain ⟨zeros, lower⟩ : ∃ zeros : Nat,
      min (((first.log2 + 1023 : Nat) : Int) - 1075) (((second.log2 + 1023 : Nat) : Int) - 1075) =
        -(zeros : Int) :=
    ⟨max (52 - first.log2) (52 - second.log2), by push_cast; omega⟩
  have enough : 52 - first.log2 ≤ zeros ∧ 52 - second.log2 ≤ zeros := by
    push_cast at lower
    omega
  have longer : 52 - (first + second).log2 ≤ zeros := by
    have grows : first.log2 ≤ (first + second).log2 :=
      (Nat.le_log2 (by omega)).mpr
        (Nat.le_trans (Nat.log2_self_le (by omega)) (Nat.le_add_right _ _))
    omega
  have sum : (Sign.positive.apply (first * 2 ^ zeros : Nat) : Int) +
      Sign.positive.apply (second * 2 ^ zeros : Nat) = ((first + second) * 2 ^ zeros : Nat) := by
    simp only [Sign.apply]
    push_cast
    ring
  have above : compare (((first + second) * 2 ^ zeros : Nat) : Int) 0 = .gt := by
    refine Int.compare_eq_gt.mpr ?_
    exact_mod_cast Nat.mul_pos positive (Nat.two_pow_pos zeros)
  rw [unpack_ofCount some few, unpack_ofCount more fewer, unpack_ofCount positive small]
  unfold UnpackedFloat.add
  dsimp only
  rw [lower, decreaseExponent_mantissaOf some few enough.1,
    decreaseExponent_mantissaOf more fewer enough.2, sum, UnpackedFloat.normalize, above]
  dsimp only
  rw [Int.toNat_natCast]
  exact round_scaled positive small longer

/-- Counts add up as doubles. -/
theorem ofCount_add {first second : Nat} (small : first + second < 2 * hiddenBit) :
    ofCount first + ofCount second = ofCount (first + second) := by
  have zero : UnpackedFloat.unpack Format.binary64 (bitsOf (ofCount 0)) = .zero .positive := rfl
  have sum : UnpackedFloat.add Format.binary64
      (UnpackedFloat.unpack Format.binary64 (bitsOf (ofCount first)))
      (UnpackedFloat.unpack Format.binary64 (bitsOf (ofCount second))) =
        UnpackedFloat.unpack Format.binary64 (bitsOf (ofCount (first + second))) := by
    rcases Nat.eq_zero_or_pos first with rfl | some
    · rw [Nat.zero_add] at small ⊢
      rcases Nat.eq_zero_or_pos second with rfl | more
      · rfl
      · rw [zero, unpack_ofCount more small]
        rfl
    · rcases Nat.eq_zero_or_pos second with rfl | more
      · rw [Nat.add_zero] at small ⊢
        rw [zero, unpack_ofCount some small]
        rfl
      · exact add_positive some more small
  have packed : bitsOf (ofCount first + ofCount second) =
      UnpackedFloat.pack Format.binary64 (UnpackedFloat.add Format.binary64
        (UnpackedFloat.unpack Format.binary64 (bitsOf (ofCount first)))
        (UnpackedFloat.unpack Format.binary64 (bitsOf (ofCount second)))) := rfl
  have number := isNaN_ofCount (first + second)
  rw [isNaN_eq_isNaNBits] at number
  refine bitsOf_injective ?_
  rw [packed, sum, pack_unpack, number]
  rfl

end MiniScript.Number
