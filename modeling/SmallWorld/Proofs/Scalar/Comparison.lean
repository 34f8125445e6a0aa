import SmallWorld.Proofs.Scalar.Finite

/-!
# Comparing magnitudes

Scalars of positive sign compare as the numbers they stand for, and as their
ranks do.  So an order by rank, which tells zeros of either sign apart, sorts
magnitudes by size.
-/

namespace SmallWorld.Scalar

open Float.Model UnpackedFloat

section Bits

variable (bits : BitVec 32)

private theorem toNat_and_mask :
    (bits &&& 0x7fffffff#32).toNat = bits.toNat % 0x80000000 := by
  rw [BitVec.toNat_and]
  exact Nat.and_two_pow_sub_one_eq_mod bits.toNat 31

private theorem unpackExponent_and_mask :
    @unpackExponent .binary32 (bits &&& 0x7fffffff#32) =
      @unpackExponent .binary32 bits := by
  apply BitVec.eq_of_toNat_eq
  rw [toNat_unpackExponent, toNat_unpackExponent, toNat_and_mask]
  omega

private theorem unpackMantissa_and_mask :
    @unpackMantissa .binary32 (bits &&& 0x7fffffff#32) =
      @unpackMantissa .binary32 bits := by
  apply BitVec.eq_of_toNat_eq
  rw [toNat_unpackMantissa, toNat_unpackMantissa, toNat_and_mask]
  omega

private theorem sign_and_mask :
    Sign.ofBitVec (@unpackSign .binary32 (bits &&& 0x7fffffff#32)) =
      .positive := by
  rw [sign_unpackSign, toNat_and_mask, if_pos (Nat.mod_lt _ (by decide))]

/-- Without its sign bit a number keeps its magnitude. -/
private theorem measures_unpack_and_mask {sign : Sign} {magnitude : ℝ}
    (measures :
      Measures sign magnitude (UnpackedFloat.unpack .binary32 bits)) :
    Measures .positive magnitude
      (UnpackedFloat.unpack .binary32 (bits &&& 0x7fffffff#32)) := by
  unfold UnpackedFloat.unpack at measures ⊢
  dsimp only at measures ⊢
  rw [sign_and_mask, unpackExponent_and_mask]
  simp only [unpackMantissa_and_mask]
  by_cases full : @unpackExponent .binary32 bits = -1#8
  · rw [if_pos full] at measures
    split at measures <;> exact measures.elim
  · rw [if_neg full] at measures ⊢
    by_cases empty : @unpackExponent .binary32 bits = 0#8
    · rw [if_pos empty] at measures ⊢
      by_cases zero : @unpackMantissa .binary32 bits = 0#23
      · rw [dif_pos zero] at measures ⊢
        exact ⟨rfl, measures.2⟩
      · rw [dif_neg zero] at measures ⊢
        exact ⟨rfl, measures.2⟩
    · rw [if_neg empty] at measures ⊢
      exact ⟨rfl, measures.2⟩

private theorem toNat_lt_of_measures {magnitude : ℝ}
    (measures :
      Measures .positive magnitude (UnpackedFloat.unpack .binary32 bits)) :
    bits.toNat < 0x80000000 := by
  by_contra signed
  have negative : Sign.ofBitVec (@unpackSign .binary32 bits) = .negative := by
    rw [sign_unpackSign, if_neg signed]
  unfold UnpackedFloat.unpack at measures
  dsimp only at measures
  rw [negative] at measures
  split at measures
  · split at measures <;> exact measures.elim
  · split at measures
    · split at measures <;> cases measures.1
    · cases measures.1

end Bits

theorem magnitude_abs {scalar : Scalar} {number : ℝ}
    (stands : scalar.Stands number) : scalar.abs.Magnitude |number| := by
  obtain ⟨sign, magnitude, measures, rfl⟩ := stands
  rw [abs_signed measures.nonneg]
  unfold Scalar.unpacked at measures
  rw [unpack_value] at measures
  unfold Magnitude Scalar.unpacked
  rw [unpack_value]
  exact measures_unpack_and_mask scalar.bits.toBitVec measures

/-- A full mantissa outweighs any mantissa of a smaller exponent. -/
private theorem mul_le_mul_of_exponent_lt {mantissa mantissa' : Nat}
    {exponent exponent' : ℤ} (small : mantissa < 0x1000000)
    (full : 0x800000 ≤ mantissa') (higher : exponent < exponent') :
    (mantissa : ℝ) * 2 ^ exponent ≤ mantissa' * 2 ^ exponent' := by
  have smallReal : (mantissa : ℝ) ≤ 2 ^ 24 := by
    have : mantissa ≤ 2 ^ 24 := small.le
    exact_mod_cast this
  have fullReal : (2 : ℝ) ^ 23 ≤ mantissa' := by
    have : 2 ^ 23 ≤ mantissa' := full
    exact_mod_cast this
  calc (mantissa : ℝ) * 2 ^ exponent ≤ 2 ^ 24 * 2 ^ exponent :=
        mul_le_mul_of_nonneg_right smallReal (by positivity)
    _ = 2 ^ 23 * 2 ^ (exponent + 1) := by
        rw [zpow_add₀ (by norm_num)]
        norm_num
        ring
    _ ≤ mantissa' * 2 ^ exponent' :=
        mul_le_mul fullReal
          (zpow_le_zpow_right₀ (by norm_num) (by omega)) (by positivity)
          (Nat.cast_nonneg _)

section Numbers

variable {left right : Scalar} (leftNumber : left.isNaN = false)
  (rightNumber : right.isNaN = false)
include leftNumber rightNumber

theorem le_iff_steps : left ≤ right ↔ left.steps ≤ right.steps := by
  change (decide (UnpackedFloat.le left.value.toModel.unpack
    right.value.toModel.unpack = true)) = true ↔ _
  rw [decide_eq_true_iff, UnpackedFloat.le,
    compare_unpack leftNumber rightNumber]
  simp [Int.isLE_compare]

/-- Numbers other than NaNs are totally ordered. -/
theorem lt_of_not_le (notLe : ¬ left ≤ right) : right < left := by
  rw [le_iff_steps leftNumber rightNumber, not_le] at notLe
  exact lt_iff.mpr ⟨rightNumber, leftNumber, notLe⟩

end Numbers

namespace Magnitude

variable {left right : Scalar} {x y : ℝ}

theorem bits_lt (magnitude : left.Magnitude x) :
    left.bits.toNat < 0x80000000 := by
  unfold Magnitude Scalar.unpacked at magnitude
  rw [unpack_value] at magnitude
  exact toNat_lt_of_measures left.bits.toBitVec magnitude

theorem isNaN (magnitude : left.Magnitude x) : left.isNaN = false := by
  change left.unpacked.isNaN = false
  unfold Magnitude at magnitude
  generalize left.unpacked = unpacked at magnitude
  cases unpacked with
  | notANumber => exact magnitude.elim
  | infinity stored => rfl
  | zero stored => rfl
  | finite stored mantissa exponent positive => rfl

theorem rank_eq_steps (magnitude : left.Magnitude x) :
    left.rank = left.steps := by
  unfold rank steps
  rw [if_pos magnitude.bits_lt, if_pos magnitude.bits_lt]

theorem lt_iff_rank (leftMagnitude : left.Magnitude x)
    (rightMagnitude : right.Magnitude y) :
    left < right ↔ left.rank < right.rank := by
  rw [lt_iff, leftMagnitude.rank_eq_steps, rightMagnitude.rank_eq_steps]
  simp [leftMagnitude.isNaN, rightMagnitude.isNaN]

theorem le_iff_rank (leftMagnitude : left.Magnitude x)
    (rightMagnitude : right.Magnitude y) :
    left ≤ right ↔ left.rank ≤ right.rank := by
  rw [leftMagnitude.rank_eq_steps, rightMagnitude.rank_eq_steps]
  exact le_iff_steps leftMagnitude.isNaN rightMagnitude.isNaN

theorem lt_of_lt (leftMagnitude : left.Magnitude x)
    (rightMagnitude : right.Magnitude y) (less : x < y) : left < right := by
  rw [lt_iff_compare]
  unfold Magnitude Scalar.unpacked at leftMagnitude rightMagnitude
  generalize left.value.toModel.unpack = leftUnpacked at leftMagnitude
  generalize right.value.toModel.unpack = rightUnpacked at rightMagnitude
  have leftNonneg := Measures.nonneg leftMagnitude
  cases rightUnpacked with
  | zero stored =>
      have := rightMagnitude.2
      linarith
  | finite stored mantissa exponent positive =>
      obtain ⟨rfl, small, least, full, rfl⟩ := rightMagnitude
      cases leftUnpacked with
      | zero stored' => rfl
      | finite stored' mantissa' exponent' positive' =>
          obtain ⟨rfl, small', least', full', rfl⟩ := leftMagnitude
          change some ((compare exponent' exponent).then
            (compare mantissa' mantissa)) = some .lt
          rcases lt_trichotomy exponent' exponent with
            lower | equal | higher
          · rw [Int.compare_eq_lt.mpr lower]
            rfl
          · subst equal
            have scale : (0 : ℝ) < 2 ^ exponent' := by positivity
            have shorter : mantissa' < mantissa := by
              exact_mod_cast (mul_lt_mul_iff_left₀ scale).mp less
            rw [Int.compare_eq_eq.mpr rfl, Nat.compare_eq_lt.mpr shorter]
            rfl
          · exact absurd less
              (mul_le_mul_of_exponent_lt small (by omega) higher).not_gt
      | infinity stored' => exact leftMagnitude.elim
      | notANumber => exact leftMagnitude.elim
  | infinity stored => exact rightMagnitude.elim
  | notANumber => exact rightMagnitude.elim

end Magnitude

theorem rank_injective {left right : Scalar}
    (equal : left.rank = right.rank) : left = right := by
  have leftBound := left.bits.toNat_lt
  have rightBound := right.bits.toNat_lt
  have bits : left.bits = right.bits := by
    apply UInt32.toNat_inj.mp
    unfold rank at equal
    dsimp only at equal
    split at equal <;> split at equal <;> omega
  cases left
  cases right
  exact congrArg Scalar.ofBits bits

end SmallWorld.Scalar
