import SmallWorld.Proofs.Scalar.Rounding

/-!
# Rounded mantissas

The rounding of unpacked numbers shifts a mantissa to the right and keeps two
bits of what is dropped.  `Locates` says what these bits know about the exact
number, and `roundWithAccuracy_measures` that the outcome is nearest to it.
A number whose mantissa has the length that its exponent calls for survives
packing (`unpack_pack`) unless it is too large.
-/

namespace SmallWorld.Scalar

open Float.Model UnpackedFloat

theorem Locates.shiftRightOne {extended : ExtendedMantissa} {exact : ℝ}
    (located : Locates extended exact) :
    Locates extended.shiftRightOne (exact / 2) := by
  obtain ⟨mantissa, roundBit, stickyBit⟩ := extended
  have parts := Nat.div_add_mod mantissa 2
  have partsReal :
      2 * ((mantissa / 2 : ℕ) : ℝ) + ((mantissa % 2 : ℕ) : ℝ) = mantissa := by
    exact_mod_cast parts
  rcases Nat.mod_two_eq_zero_or_one mantissa with even | odd
  · rw [even] at partsReal
    cases roundBit <;> cases stickyBit <;>
      simp only [ExtendedMantissa.shiftRightOne, even, Locates] at located ⊢ <;>
      norm_num at partsReal ⊢ <;>
      first | linarith | constructor <;> linarith
  · rw [odd] at partsReal
    have set : ((1 : Nat) != 0) = true := rfl
    cases roundBit <;> cases stickyBit <;>
      simp only [ExtendedMantissa.shiftRightOne, odd, set, Locates]
        at located ⊢ <;>
      norm_num at partsReal ⊢ <;>
      first | linarith | constructor <;> linarith

theorem Locates.shiftRight {extended : ExtendedMantissa} {exact : ℝ}
    (located : Locates extended exact) (count : ℕ) :
    Locates (extended >>> count) (exact / 2 ^ count) := by
  change Locates (count.repeat ExtendedMantissa.shiftRightOne extended) _
  induction count with
  | zero => simpa [Nat.repeat] using located
  | succ count inductionHypothesis =>
      rw [Nat.repeat, pow_succ, ← div_div]
      exact inductionHypothesis.shiftRightOne

theorem Locates.abs_roundedMantissa_sub_le {extended : ExtendedMantissa}
    {exact : ℝ} (located : Locates extended exact) :
    |(extended.roundedMantissa : ℝ) - exact| ≤ 1 / 2 := by
  obtain ⟨mantissa, roundBit, stickyBit⟩ := extended
  cases roundBit <;> cases stickyBit <;>
    simp only [Locates, ExtendedMantissa.roundedMantissa,
      ExtendedMantissa.accuracy, Accuracy.roundToNearestEven] at located ⊢
  · rw [located, sub_self, abs_zero]
    norm_num
  · rw [abs_le]
    constructor <;> linarith
  · rcases Nat.mod_two_eq_zero_or_one mantissa with even | odd
    · rw [even, located, abs_le]
      push_cast
      constructor <;> linarith
    · rw [odd, located, abs_le]
      push_cast
      constructor <;> linarith
  · rw [abs_le]
    push_cast
    constructor <;> linarith

theorem Locates.mantissa_le {extended : ExtendedMantissa} {exact : ℝ}
    (located : Locates extended exact) :
    (extended.mantissa : ℝ) ≤ exact ∧ exact < extended.mantissa + 1 := by
  obtain ⟨mantissa, roundBit, stickyBit⟩ := extended
  cases roundBit <;> cases stickyBit <;> simp only [Locates] at located ⊢ <;>
    constructor <;> linarith

private theorem targetExponent_eq (mantissa : Nat) (exponent : ℤ) :
    Format.binary32.targetExponent (totalExponent mantissa exponent) =
      max ((mantissa.log2 : ℤ) + exponent - 23) (-149) := by
  simp only [Format.targetExponent, totalExponent, Format.mantissaBits,
    Format.minExponent]
  norm_num
  omega

/-- A mantissa of at most 24 bits is not shifted. -/
private theorem shiftToTargetExponent_of_lt {mantissa : Nat} {exponent : ℤ}
    (small : mantissa < 0x1000000) (least : -149 ≤ exponent) :
    shiftToTargetExponent .binary32 mantissa exponent .exact =
      (⟨mantissa, false, false⟩, exponent) := by
  have short : mantissa.log2 ≤ 23 := by
    by_cases zero : mantissa = 0
    · simp [zero]
    · have := (Nat.log2_lt zero).mpr (show mantissa < 2 ^ 24 from small)
      omega
  have none :
      (Format.binary32.targetExponent (totalExponent mantissa exponent) -
        exponent).toNat = 0 := by
    rw [targetExponent_eq]
    omega
  simp only [shiftToTargetExponent, shiftToExponent, none]
  simp [HShiftRight.hShiftRight, Nat.repeat,
    ExtendedMantissa.ofMantissaAndAccuracy]

/-- A mantissa that rounding has made one bit too long is shifted once. -/
private theorem shiftToTargetExponent_carry {exponent : ℤ}
    (least : -149 ≤ exponent) :
    shiftToTargetExponent .binary32 0x1000000 exponent .exact =
      (⟨0x800000, false, false⟩, exponent + 1) := by
  have long : Nat.log2 0x1000000 = 24 := by decide +kernel
  have once :
      (Format.binary32.targetExponent (totalExponent 0x1000000 exponent) -
        exponent).toNat = 1 := by
    rw [targetExponent_eq, long]
    omega
  simp only [shiftToTargetExponent, shiftToExponent, once]
  simp [HShiftRight.hShiftRight, Nat.repeat, ExtendedMantissa.shiftRightOne,
    ExtendedMantissa.ofMantissaAndAccuracy]

/-- The bulk of the shifting: afterwards the mantissa has at most 24 bits, and
fewer only with the least exponent. -/
private theorem exists_shiftToTargetExponent {mantissa : Nat} {exponent : ℤ}
    (accuracy : Accuracy) (long : 23 ≤ mantissa.log2 ∨ exponent ≤ -149) :
    ∃ count : ℕ,
      shiftToTargetExponent .binary32 mantissa exponent accuracy =
        (ExtendedMantissa.ofMantissaAndAccuracy mantissa accuracy >>> count,
          exponent + count) ∧
      -149 ≤ exponent + count ∧ mantissa.log2 ≤ 23 + count ∧
      (mantissa.log2 = 23 + count ∨ exponent + count = -149) := by
  refine ⟨(max ((mantissa.log2 : ℤ) + exponent - 23) (-149) - exponent).toNat,
    ?_, by omega, by omega, by omega⟩
  simp only [shiftToTargetExponent, shiftToExponent, targetExponent_eq]

/-- What is left after the first shift: the mantissa is rounded, and shifted
once more if that has made it too long. -/
private theorem measures_of_shift {sign : Sign} {mantissa kept : Nat}
    {exponent shifted : ℤ} {accuracy : Accuracy} {extended : ExtendedMantissa}
    (first : shiftToTargetExponent .binary32 mantissa exponent accuracy =
      (extended, shifted))
    (rounded : extended.roundedMantissa = kept) (bound : kept ≤ 0x1000000)
    (least : -149 ≤ shifted) (full : 0x800000 ≤ kept ∨ shifted = -149) :
    Measures sign (kept * 2 ^ shifted)
      (roundWithAccuracy .binary32 sign mantissa exponent accuracy) := by
  unfold roundWithAccuracy
  rw [first]
  dsimp only
  rw [rounded]
  by_cases carry : kept = 0x1000000
  · rw [carry, shiftToTargetExponent_carry least]
    refine ⟨rfl, ?_, by dsimp only; omega, Or.inl (Nat.le_refl _), ?_⟩
    · change 0x800000 < 0x1000000
      decide
    · change (0x1000000 : ℕ) * (2 : ℝ) ^ shifted =
        (0x800000 : ℕ) * (2 : ℝ) ^ (shifted + 1)
      rw [zpow_add_one₀ (by norm_num)]
      norm_num
      ring
  · have small : kept < 0x1000000 := by omega
    rw [shiftToTargetExponent_of_lt small least]
    by_cases zero : kept = 0
    · rw [dif_pos zero]
      exact ⟨rfl, by simp [zero]⟩
    · rw [dif_neg zero]
      exact ⟨rfl, small, least, full, rfl⟩

/-- Rounding ends at a number that is nearest to the exact one. -/
theorem roundWithAccuracy_measures (sign : Sign) {mantissa : Nat}
    (exponent : ℤ) {accuracy : Accuracy} {exact : ℝ}
    (located :
      Locates (.ofMantissaAndAccuracy mantissa accuracy) exact)
    (positive : 0 < mantissa)
    (long : 0x800000 ≤ mantissa ∨ exponent ≤ -149) :
    ∃ rounded, IsNearest (exact * 2 ^ exponent) rounded ∧
      Measures sign rounded
        (roundWithAccuracy .binary32 sign mantissa exponent accuracy) := by
  have bounds := located.mantissa_le
  have start : (ExtendedMantissa.ofMantissaAndAccuracy mantissa
      accuracy).mantissa = mantissa := by
    cases accuracy with
    | exact => rfl
    | inexact order => cases order <;> rfl
  rw [start] at bounds
  have logLower : 2 ^ mantissa.log2 ≤ mantissa := Nat.log2_self_le (by omega)
  have logUpper : mantissa < 2 ^ (mantissa.log2 + 1) := Nat.lt_log2_self
  obtain ⟨count, first, least, logBound, target⟩ :=
    exists_shiftToTargetExponent accuracy
      (long.imp_left fun long => (Nat.le_log2 (by omega)).mpr long)
  have half := (located.shiftRight count).abs_roundedMantissa_sub_le
  generalize rounded : (ExtendedMantissa.ofMantissaAndAccuracy mantissa
    accuracy >>> count).roundedMantissa = kept at half
  have powPos : (0 : ℝ) < 2 ^ count := by positivity
  have upper : exact / 2 ^ count ≤ 2 ^ 24 := by
    rw [div_le_iff₀ powPos, ← pow_add]
    have : mantissa + 1 ≤ 2 ^ (24 + count) :=
      Nat.le_trans logUpper (Nat.pow_le_pow_right (by decide) (by omega))
    have : (mantissa : ℝ) + 1 ≤ 2 ^ (24 + count) := by exact_mod_cast this
    linarith [bounds.2]
  have full : 2 ^ 23 ≤ exact / 2 ^ count ∨ exponent + count = -149 := by
    refine target.imp_left fun high => ?_
    rw [le_div_iff₀ powPos, ← pow_add]
    have : 2 ^ (23 + count) ≤ mantissa := high ▸ logLower
    have : (2 : ℝ) ^ (23 + count) ≤ mantissa := by exact_mod_cast this
    linarith [bounds.1]
  have keptLe : kept ≤ 0x1000000 := by
    have close := (abs_le.mp half).2
    have : (kept : ℝ) < 0x1000001 := by linarith
    exact Nat.lt_succ_iff.mp (by exact_mod_cast this)
  have keptFull : 0x800000 ≤ kept ∨ exponent + count = -149 := by
    refine full.imp_left fun large => ?_
    have close := (abs_le.mp half).1
    have : (0x800000 : ℝ) < kept + 1 := by linarith
    exact Nat.lt_succ_iff.mp (by exact_mod_cast this)
  have nearest := IsNearest.of_abs_sub_le_half half
    (by norm_num; exact keptLe) least full
  have scale : exact / 2 ^ count * (2 : ℝ) ^ (exponent + count) =
      exact * 2 ^ exponent := by
    rw [zpow_add₀ (by norm_num), zpow_natCast]
    field_simp
  rw [scale] at nearest
  exact ⟨_, nearest, measures_of_shift first rounded keptLe least keptFull⟩

theorem log2_shiftLeft {mantissa : Nat} (positive : 0 < mantissa)
    (count : ℕ) : (mantissa <<< count).log2 = mantissa.log2 + count := by
  have nonzero : mantissa <<< count ≠ 0 := by
    rw [Nat.shiftLeft_eq]
    positivity
  have lower : 2 ^ mantissa.log2 ≤ mantissa := Nat.log2_self_le (by omega)
  have upper : mantissa < 2 ^ (mantissa.log2 + 1) := Nat.lt_log2_self
  rw [Nat.log2_eq_iff nonzero, Nat.shiftLeft_eq, pow_add,
    show mantissa.log2 + count + 1 = mantissa.log2 + 1 + count by ring,
    pow_add _ (mantissa.log2 + 1)]
  exact ⟨Nat.mul_le_mul_right _ lower,
    Nat.mul_lt_mul_of_pos_right upper (by positivity)⟩

theorem decreaseExponent_value (mantissa : Nat) {exponent target : ℤ}
    (below : target ≤ exponent) :
    ((decreaseExponent mantissa exponent target).1 : ℝ) * 2 ^ target =
      mantissa * 2 ^ exponent := by
  obtain ⟨count, hcount⟩ : ∃ count : ℕ, exponent - target = count :=
    ⟨(exponent - target).toNat, by omega⟩
  have split : exponent = count + target := by omega
  simp only [decreaseExponent, hcount, Int.toNat_natCast, Nat.shiftLeft_eq]
  rw [split, zpow_add₀ (by norm_num), zpow_natCast]
  push_cast
  ring

theorem round_measures (sign : Sign) {mantissa : Nat} (exponent : ℤ)
    (positive : 0 < mantissa) :
    ∃ rounded, IsNearest (mantissa * 2 ^ exponent) rounded ∧
      Measures sign rounded (round .binary32 sign mantissa exponent) := by
  unfold UnpackedFloat.round
  rw [targetExponent_eq]
  generalize htarget :
    max ((mantissa.log2 : ℤ) + exponent - 23) (-149) = target
  obtain ⟨count, hcount⟩ :
      ∃ count : ℕ, (exponent - target).toNat = count := ⟨_, rfl⟩
  have long : 0x800000 ≤ mantissa <<< count ∨ exponent - count ≤ -149 := by
    have log := log2_shiftLeft positive count
    have nonzero : mantissa <<< count ≠ 0 := by
      rw [Nat.shiftLeft_eq]
      positivity
    by_cases full : 23 ≤ (mantissa <<< count).log2
    · exact Or.inl ((Nat.le_log2 nonzero).mp full)
    · right
      omega
  have located : Locates
      (.ofMantissaAndAccuracy (mantissa <<< count) .exact)
      ((mantissa <<< count : ℕ) : ℝ) := rfl
  obtain ⟨rounded, nearest, measures⟩ := roundWithAccuracy_measures
    sign (exponent - count) located
    (by rw [Nat.shiftLeft_eq]; positivity) long
  have value : ((mantissa <<< count : ℕ) : ℝ) * 2 ^ (exponent - count) =
      mantissa * 2 ^ exponent := by
    rw [Nat.shiftLeft_eq, zpow_sub₀ (by norm_num), zpow_natCast]
    push_cast
    field_simp
  rw [value] at nearest
  refine ⟨rounded, nearest, ?_⟩
  simp only [decreaseExponent, hcount]
  exact measures

def signed : Sign → ℝ → ℝ
  | .negative, magnitude => -magnitude
  | .positive, magnitude => magnitude

/-- An unpacked number stands for a real one. -/
def Shows (unpacked : UnpackedFloat) (number : ℝ) : Prop :=
  ∃ sign magnitude,
    Measures sign magnitude unpacked ∧ number = signed sign magnitude

theorem signed_mul (first second : Sign) (left right : ℝ) :
    signed (first * second) (left * right) =
      signed first left * signed second right := by
  rcases first with _ | _ <;> rcases second with _ | _
  · exact (neg_mul_neg left right).symm
  · exact (neg_mul left right).symm
  · exact (mul_neg left right).symm
  · rfl

theorem signed_apply (sign : Sign) (mantissa : Nat) (exponent : ℤ) :
    signed sign (mantissa * 2 ^ exponent) =
      (sign.apply mantissa : ℤ) * (2 : ℝ) ^ exponent := by
  cases sign <;> simp [signed, Sign.apply]

theorem abs_signed {sign : Sign} {magnitude : ℝ} (positive : 0 ≤ magnitude) :
    |signed sign magnitude| = magnitude := by
  cases sign <;> simp [signed, abs_of_nonneg positive]

theorem IsNearest.signed {exact rounded : ℝ}
    (nearest : IsNearest exact rounded) (sign : Sign) :
    IsNearest (signed sign exact) (signed sign rounded) := by
  cases sign with
  | negative => exact nearest.neg
  | positive => exact nearest

theorem decreaseExponent_pos {mantissa : Nat} (positive : 0 < mantissa)
    (exponent target : ℤ) :
    0 < (decreaseExponent mantissa exponent target).1 := by
  simp only [decreaseExponent, Nat.shiftLeft_eq]
  positivity

theorem normalize_measures {mantissa : ℤ} (positive : 0 < mantissa)
    (exponent : ℤ) (zeroSign : Sign) :
    ∃ rounded, IsNearest (mantissa * 2 ^ exponent) rounded ∧
      Measures .positive rounded
        (UnpackedFloat.normalize .binary32 mantissa exponent zeroSign) := by
  have value : ((mantissa.toNat : ℕ) : ℝ) = (mantissa : ℝ) := by
    have : ((mantissa.toNat : ℕ) : ℤ) = mantissa := by omega
    exact_mod_cast this
  unfold UnpackedFloat.normalize
  rw [Int.compare_eq_gt.mpr positive, ← value]
  exact round_measures .positive exponent (by omega)

/-- Rounding a sum ends at a number that is nearest to it. -/
theorem normalize_shows (mantissa : ℤ) (exponent : ℤ) (zeroSign : Sign) :
    ∃ rounded, IsNearest (mantissa * 2 ^ exponent) rounded ∧
      Shows (UnpackedFloat.normalize .binary32 mantissa exponent zeroSign) rounded := by
  rcases lt_trichotomy mantissa 0 with negative | zero | positive
  · unfold UnpackedFloat.normalize
    rw [Int.compare_eq_lt.mpr negative]
    obtain ⟨rounded, nearest, measures⟩ :=
      round_measures .negative exponent
        (show 0 < (-mantissa).toNat by omega)
    have value : (((-mantissa).toNat : ℕ) : ℝ) = -(mantissa : ℝ) := by
      have : (((-mantissa).toNat : ℕ) : ℤ) = -mantissa := by omega
      exact_mod_cast this
    refine ⟨-rounded, ?_, .negative, rounded, measures, rfl⟩
    have mirrored := nearest.neg
    rwa [value, neg_mul, neg_neg] at mirrored
  · rw [zero, Int.cast_zero, zero_mul]
    refine ⟨0, ⟨representable_zero, fun other _ => by simp⟩,
      zeroSign, 0, ⟨rfl, rfl⟩, ?_⟩
    cases zeroSign <;> simp [Scalar.signed]
  · obtain ⟨rounded, nearest, measures⟩ :=
      normalize_measures positive exponent zeroSign
    exact ⟨rounded, nearest, .positive, rounded, measures, rfl⟩

end SmallWorld.Scalar
