import SmallWorld.Proofs.Scalar.Packing

/-!
# Arithmetic on unpacked numbers

The sum, the difference, the product, the quotient and the square root of
numbers end at a number that is nearest to the exact result.  Whether that
number is too large for a scalar plays no role here.
-/

namespace SmallWorld.Scalar

open Float.Model UnpackedFloat

private theorem apply_decreaseExponent (sign : Sign) (mantissa : Nat)
    {exponent target : ℤ} (below : target ≤ exponent) :
    ((sign.apply (decreaseExponent mantissa exponent target).1 : ℤ) : ℝ) *
        2 ^ target = signed sign (mantissa * 2 ^ exponent) := by
  rw [← signed_apply, decreaseExponent_value mantissa below]

theorem add_shows {left right : UnpackedFloat} {x y : ℝ}
    (leftShows : Shows left x) (rightShows : Shows right y) :
    ∃ rounded, IsNearest (x + y) rounded ∧
      Shows (UnpackedFloat.add .binary32 left right) rounded := by
  obtain ⟨leftSign, leftMagnitude, leftMeasures, rfl⟩ := leftShows
  obtain ⟨rightSign, rightMagnitude, rightMeasures, rfl⟩ := rightShows
  have leftShows : Shows left (signed leftSign leftMagnitude) :=
    ⟨_, _, leftMeasures, rfl⟩
  have rightShows : Shows right (signed rightSign rightMagnitude) :=
    ⟨_, _, rightMeasures, rfl⟩
  have signedZero : ∀ sign, signed sign 0 = 0 := by
    intro sign
    cases sign <;> simp [signed]
  cases left with
  | zero stored =>
      obtain ⟨rfl, rfl⟩ := leftMeasures
      rw [signedZero, zero_add]
      cases right with
      | zero stored' =>
          obtain ⟨rfl, rfl⟩ := rightMeasures
          rw [signedZero]
          refine ⟨0, .refl representable_zero, ?_⟩
          simp only [UnpackedFloat.add]
          split
          · exact ⟨_, 0, ⟨rfl, rfl⟩, (signedZero _).symm⟩
          · exact ⟨_, 0, ⟨rfl, rfl⟩, (signedZero _).symm⟩
      | finite stored' mantissa exponent positive =>
          exact ⟨_, .refl rightShows.representable, rightShows⟩
      | infinity stored' => exact rightMeasures.elim
      | notANumber => exact rightMeasures.elim
  | finite stored mantissa exponent positive =>
      cases right with
      | zero stored' =>
          obtain ⟨rfl, rfl⟩ := rightMeasures
          rw [signedZero, add_zero]
          exact ⟨_, .refl leftShows.representable, leftShows⟩
      | finite stored' mantissa' exponent' positive' =>
          obtain ⟨rfl, -, -, -, rfl⟩ := leftMeasures
          obtain ⟨rfl, -, -, -, rfl⟩ := rightMeasures
          have total := normalize_shows
            (stored.apply (decreaseExponent mantissa exponent
                (min exponent exponent')).1 +
              stored'.apply (decreaseExponent mantissa' exponent'
                (min exponent exponent')).1)
            (min exponent exponent') .positive
          rw [Int.cast_add, add_mul,
            apply_decreaseExponent stored mantissa (min_le_left _ _),
            apply_decreaseExponent stored' mantissa' (min_le_right _ _)]
            at total
          exact total
      | infinity stored' => exact rightMeasures.elim
      | notANumber => exact rightMeasures.elim
  | infinity stored => exact leftMeasures.elim
  | notANumber => exact leftMeasures.elim

theorem add_measures {left right : UnpackedFloat} {x y : ℝ}
    (leftMeasures : Measures .positive x left)
    (rightMeasures : Measures .positive y right) :
    ∃ rounded, IsNearest (x + y) rounded ∧
      Measures .positive rounded
        (UnpackedFloat.add .binary32 left right) := by
  cases left with
  | zero stored =>
      obtain ⟨rfl, rfl⟩ := leftMeasures
      refine ⟨y, ?_, ?_⟩
      · rw [zero_add]
        exact .refl rightMeasures.representable
      · cases right with
        | zero stored' =>
            obtain ⟨rfl, rfl⟩ := rightMeasures
            exact ⟨rfl, rfl⟩
        | finite stored' mantissa exponent positive => exact rightMeasures
        | infinity stored' => exact rightMeasures.elim
        | notANumber => exact rightMeasures.elim
  | finite stored mantissa exponent positive =>
      cases right with
      | zero stored' =>
          refine ⟨x, ?_, leftMeasures⟩
          rw [rightMeasures.2, add_zero]
          exact .refl leftMeasures.representable
      | finite stored' mantissa' exponent' positive' =>
          obtain ⟨rfl, -, -, -, rfl⟩ := leftMeasures
          obtain ⟨rfl, -, -, -, rfl⟩ := rightMeasures
          have shifted := decreaseExponent_pos positive exponent
            (min exponent exponent')
          have sumPositive : 0 < Sign.positive.apply (decreaseExponent
              mantissa exponent (min exponent exponent')).1 +
              Sign.positive.apply (decreaseExponent mantissa' exponent'
                (min exponent exponent')).1 := by
            simp only [Sign.apply]
            omega
          obtain ⟨rounded, nearest, measures⟩ := normalize_measures sumPositive
            (min exponent exponent') .positive
          rw [Int.cast_add, add_mul,
            apply_decreaseExponent .positive mantissa (min_le_left _ _),
            apply_decreaseExponent .positive mantissa' (min_le_right _ _)]
            at nearest
          exact ⟨rounded, nearest, measures⟩
      | infinity stored' => exact rightMeasures.elim
      | notANumber => exact rightMeasures.elim
  | infinity stored => exact leftMeasures.elim
  | notANumber => exact leftMeasures.elim

theorem sub_eq_add_neg_unpacked (left right : UnpackedFloat) :
    UnpackedFloat.sub .binary32 left right =
      UnpackedFloat.add .binary32 left right.neg := by
  have apply_neg : ∀ (sign : Sign) (mantissa : ℤ),
      (-sign).apply mantissa = -sign.apply mantissa := by
    intro sign mantissa
    cases sign with
    | negative => exact (neg_neg mantissa).symm
    | positive => rfl
  rcases left with _ | _ | _ | ⟨_, _, _, _⟩ <;>
    rcases right with _ | _ | _ | ⟨_, _, _, _⟩ <;> try rfl
  simp only [UnpackedFloat.sub, UnpackedFloat.add, UnpackedFloat.neg,
    apply_neg, Int.sub_eq_add_neg]

theorem neg_shows {unpacked : UnpackedFloat} {x : ℝ}
    (shown : Shows unpacked x) : Shows unpacked.neg (-x) := by
  obtain ⟨sign, magnitude, measures, rfl⟩ := shown
  refine ⟨-sign, magnitude, ?_, ?_⟩
  · cases unpacked with
    | zero stored => exact ⟨congrArg Neg.neg measures.1, measures.2⟩
    | finite stored mantissa exponent positive =>
        exact ⟨congrArg Neg.neg measures.1, measures.2⟩
    | infinity stored => exact measures.elim
    | notANumber => exact measures.elim
  · cases sign with
    | negative => exact neg_neg magnitude
    | positive => rfl

theorem sub_shows {left right : UnpackedFloat} {x y : ℝ}
    (leftShows : Shows left x) (rightShows : Shows right y) :
    ∃ rounded, IsNearest (x - y) rounded ∧
      Shows (UnpackedFloat.sub .binary32 left right) rounded := by
  rw [sub_eq_add_neg_unpacked, sub_eq_add_neg]
  exact add_shows leftShows (neg_shows rightShows)

/-- The product of two magnitudes, with the product of their signs. -/
theorem mul_measures {leftSign rightSign : Sign} {left right : UnpackedFloat}
    {x y : ℝ} (leftMeasures : Measures leftSign x left)
    (rightMeasures : Measures rightSign y right) :
    ∃ rounded, IsNearest (x * y) rounded ∧
      Measures (leftSign * rightSign) rounded
        (UnpackedFloat.mul .binary32 left right) := by
  cases left with
  | zero stored =>
      obtain ⟨rfl, rfl⟩ := leftMeasures
      rw [zero_mul]
      refine ⟨0, .refl representable_zero, ?_⟩
      cases right with
      | zero stored' => exact ⟨congrArg _ rightMeasures.1, rfl⟩
      | finite stored' mantissa exponent positive =>
          exact ⟨congrArg _ rightMeasures.1, rfl⟩
      | infinity stored' => exact rightMeasures.elim
      | notANumber => exact rightMeasures.elim
  | finite stored mantissa exponent positive =>
      cases right with
      | zero stored' =>
          obtain ⟨rfl, rfl⟩ := rightMeasures
          rw [mul_zero]
          exact ⟨0, .refl representable_zero,
            congrArg (· * stored') leftMeasures.1, rfl⟩
      | finite stored' mantissa' exponent' positive' =>
          obtain ⟨rfl, -, least, full, rfl⟩ := leftMeasures
          obtain ⟨rfl, -, least', full', rfl⟩ := rightMeasures
          have long : 0x800000 ≤ mantissa * mantissa' ∨
              exponent + exponent' ≤ -149 := by
            rcases full with full | lowest
            · exact Or.inl (full.trans (Nat.le_mul_of_pos_right _ positive'))
            · rcases full' with full' | lowest'
              · exact Or.inl (full'.trans (Nat.le_mul_of_pos_left _ positive))
              · right
                omega
          have value : ((mantissa * mantissa' : ℕ) : ℝ) *
              2 ^ (exponent + exponent') =
                mantissa * 2 ^ exponent * (mantissa' * 2 ^ exponent') := by
            rw [zpow_add₀ (by norm_num)]
            push_cast
            ring
          rw [← value]
          have located : Locates
              (.ofMantissaAndAccuracy (mantissa * mantissa') .exact)
              ((mantissa * mantissa' : ℕ) : ℝ) := rfl
          exact roundWithAccuracy_measures (stored * stored') _ located
            (Nat.mul_pos positive positive') long
      | infinity stored' => exact rightMeasures.elim
      | notANumber => exact rightMeasures.elim
  | infinity stored => exact leftMeasures.elim
  | notANumber => exact leftMeasures.elim

theorem mul_shows {left right : UnpackedFloat} {x y : ℝ}
    (leftShows : Shows left x) (rightShows : Shows right y) :
    ∃ rounded, IsNearest (x * y) rounded ∧
      Shows (UnpackedFloat.mul .binary32 left right) rounded := by
  obtain ⟨leftSign, leftMagnitude, leftMeasures, rfl⟩ := leftShows
  obtain ⟨rightSign, rightMagnitude, rightMeasures, rfl⟩ := rightShows
  rw [← signed_mul]
  obtain ⟨rounded, nearest, measures⟩ :=
    mul_measures leftMeasures rightMeasures
  exact ⟨_, nearest.signed _, _, rounded, measures, rfl⟩

/-- A quotient and its remainder locate the exact quotient. -/
private theorem locates_accuracyOfFraction (numerator : Nat) {denominator : Nat}
    (positive : 0 < denominator) :
    Locates (.ofMantissaAndAccuracy (numerator / denominator)
        (accuracyOfFraction (numerator % denominator) denominator))
      ((numerator : ℝ) / denominator) := by
  have positiveReal : (0 : ℝ) < denominator := by exact_mod_cast positive
  have parts : (denominator : ℝ) * (numerator / denominator : ℕ) +
      (numerator % denominator : ℕ) = numerator := by
    exact_mod_cast Nat.div_add_mod numerator denominator
  have remainder : ((numerator % denominator : ℕ) : ℝ) < denominator := by
    exact_mod_cast Nat.mod_lt numerator positive
  unfold accuracyOfFraction
  split
  · next exact =>
      rw [exact] at parts
      change (numerator : ℝ) / denominator = _
      rw [div_eq_iff positiveReal.ne']
      push_cast at parts
      linarith
  · next inexact =>
      have left : (0 : ℝ) < (numerator % denominator : ℕ) := by
        exact_mod_cast Nat.pos_of_ne_zero inexact
      rcases lt_trichotomy (2 * (numerator % denominator)) denominator with
        less | equal | greater
      · rw [Nat.compare_eq_lt.mpr less]
        have less' : 2 * ((numerator % denominator : ℕ) : ℝ) < denominator := by
          exact_mod_cast less
        constructor
        · rw [lt_div_iff₀ positiveReal]
          linarith
        · rw [div_lt_iff₀ positiveReal]
          linarith
      · rw [Nat.compare_eq_eq.mpr equal]
        have equal' :
            2 * ((numerator % denominator : ℕ) : ℝ) = denominator := by
          exact_mod_cast equal
        change (numerator : ℝ) / denominator = _
        rw [div_eq_iff positiveReal.ne']
        linarith
      · rw [Nat.compare_eq_gt.mpr greater]
        have greater' :
            (denominator : ℝ) < 2 * (numerator % denominator : ℕ) := by
          exact_mod_cast greater
        constructor
        · rw [lt_div_iff₀ positiveReal]
          linarith
        · rw [div_lt_iff₀ positiveReal]
          linarith

private theorem Measures.bounds {sign : Sign} {magnitude : ℝ}
    {mantissa : Nat} {exponent : ℤ} {positive : 0 < mantissa}
    (measures :
      Measures sign magnitude (.finite sign mantissa exponent positive)) :
    (2 : ℝ) ^ ((mantissa.log2 : ℤ) + exponent) ≤ magnitude ∧
      magnitude < 2 ^ ((mantissa.log2 : ℤ) + exponent + 1) := by
  have lower : ((2 ^ mantissa.log2 : ℕ) : ℝ) ≤ mantissa := by
    exact_mod_cast Nat.log2_self_le (by omega)
  have upper : (mantissa : ℝ) < ((2 ^ (mantissa.log2 + 1) : ℕ) : ℝ) := by
    exact_mod_cast Nat.lt_log2_self
  have power : (0 : ℝ) < 2 ^ exponent := zpow_pos (by norm_num) _
  push_cast at lower upper
  rw [measures.2.2.2.2, add_right_comm, zpow_add₀ (by norm_num),
    zpow_add₀ (by norm_num) _ exponent, zpow_natCast,
    show (mantissa.log2 : ℤ) + 1 = ((mantissa.log2 + 1 : ℕ) : ℤ) by norm_num,
    zpow_natCast]
  exact ⟨mul_le_mul_of_nonneg_right lower power.le,
    mul_lt_mul_of_pos_right upper power⟩

/-- A dividend that has been shifted far enough has a long quotient. -/
private theorem le_shiftLeft_div {mantissa divisor count : ℕ}
    (mantissaPos : 0 < mantissa) (divisorPos : 0 < divisor)
    (far : 23 + (divisor.log2 + 1) ≤ mantissa.log2 + count) :
    0x800000 ≤ (mantissa <<< count) / divisor := by
  have lower : 2 ^ mantissa.log2 ≤ mantissa := Nat.log2_self_le mantissaPos.ne'
  have upper : divisor < 2 ^ (divisor.log2 + 1) := Nat.lt_log2_self
  rw [Nat.le_div_iff_mul_le divisorPos, Nat.shiftLeft_eq]
  calc 0x800000 * divisor
      ≤ 2 ^ 23 * 2 ^ (divisor.log2 + 1) := Nat.mul_le_mul_left _ upper.le
    _ = 2 ^ (23 + (divisor.log2 + 1)) := (pow_add _ _ _).symm
    _ ≤ 2 ^ (mantissa.log2 + count) := Nat.pow_le_pow_right (by decide) far
    _ = 2 ^ mantissa.log2 * 2 ^ count := pow_add _ _ _
    _ ≤ mantissa * 2 ^ count := Nat.mul_le_mul_right _ lower

/-- The exponents of two numbers are about as far apart as their quotient is
from one. -/
private theorem lt_sub_exponents {left right : ℕ} {leftExponent
    rightExponent : ℤ} {x y : ℝ} (rightPos : 0 < y)
    (upper : x < 2 ^ ((left.log2 : ℤ) + leftExponent + 1))
    (lower : 2 ^ ((right.log2 : ℤ) + rightExponent) ≤ y)
    (large : 2 ^ (-100 : ℤ) ≤ x / y) :
    -101 <
      (left.log2 : ℤ) + leftExponent - (right.log2 + rightExponent) := by
  rw [le_div_iff₀ rightPos] at large
  have chain : (2 : ℝ) ^ (-100 + ((right.log2 : ℤ) + rightExponent)) <
      2 ^ ((left.log2 : ℤ) + leftExponent + 1) := by
    rw [zpow_add₀ (by norm_num)]
    calc (2 : ℝ) ^ (-100 : ℤ) * 2 ^ ((right.log2 : ℤ) + rightExponent)
        ≤ 2 ^ (-100 : ℤ) * y := mul_le_mul_of_nonneg_left lower (by positivity)
      _ ≤ x := large
      _ < _ := upper
  have := (zpow_lt_zpow_iff_right₀ (by norm_num : (1 : ℝ) < 2)).mp chain
  omega

/-- The quotient of positive numbers, if it is not too small. -/
theorem div_measures {left right : UnpackedFloat} {x y : ℝ}
    (leftMeasures : Measures .positive x left)
    (rightMeasures : Measures .positive y right)
    (leftPos : 0 < x) (rightPos : 0 < y)
    (large : 2 ^ (-100 : ℤ) ≤ x / y) :
    ∃ rounded, IsNearest (x / y) rounded ∧
      Measures .positive rounded
        (UnpackedFloat.div .binary32 left right) := by
  cases left with
  | zero stored => exact (leftPos.ne' leftMeasures.2).elim
  | finite stored mantissa exponent positive =>
      cases right with
      | zero stored' => exact (rightPos.ne' rightMeasures.2).elim
      | finite stored' mantissa' exponent' positive' =>
          obtain rfl : stored = .positive := leftMeasures.1
          obtain rfl : stored' = .positive := rightMeasures.1
          have leftBounds := leftMeasures.bounds
          have rightBounds := rightMeasures.bounds
          have exponents := lt_sub_exponents rightPos leftBounds.2
            rightBounds.1 large
          generalize htarget : min (exponent - exponent')
            (Format.binary32.targetExponent (totalExponent mantissa exponent -
              totalExponent mantissa' exponent')) = target
          have target_eq : target = min (exponent - exponent')
              ((mantissa.log2 : ℤ) + exponent -
                (mantissa'.log2 + exponent') - 24) := by
            rw [← htarget]
            simp only [Format.targetExponent, totalExponent,
              Format.mantissaBits, Format.minExponent]
            norm_num
            omega
          obtain ⟨count, hcount⟩ : ∃ count : ℕ,
              exponent - exponent' - target = count :=
            ⟨(exponent - exponent' - target).toNat, by omega⟩
          have long : 0x800000 ≤ (mantissa <<< count) / mantissa' :=
            le_shiftLeft_div positive positive' (by omega)
          obtain ⟨rounded, nearest, measures⟩ := roundWithAccuracy_measures
            .positive target
            (locates_accuracyOfFraction (mantissa <<< count) positive') (by omega) (Or.inl long)
          have value : ((mantissa <<< count : ℕ) : ℝ) / mantissa' *
              2 ^ target = x / y := by
            have nonzero : (mantissa' : ℝ) ≠ 0 := by exact_mod_cast positive'.ne'
            rw [leftMeasures.2.2.2.2, rightMeasures.2.2.2.2,
              show exponent = count + (target + exponent') by omega,
              zpow_add₀ (by norm_num), zpow_add₀ (by norm_num), zpow_natCast,
              Nat.shiftLeft_eq]
            push_cast
            field_simp
          rw [value] at nearest
          refine ⟨rounded, nearest, ?_⟩
          have result : UnpackedFloat.div .binary32
              (.finite .positive mantissa exponent positive)
              (.finite .positive mantissa' exponent' positive') =
                roundWithAccuracy .binary32 .positive
                  (mantissa <<< count / mantissa') target
                  (accuracyOfFraction (mantissa <<< count % mantissa')
                    mantissa') := by
            simp only [UnpackedFloat.div, divCore, htarget, hcount,
              Int.toNat_natCast]
            rfl
          rw [result]
          exact measures
      | infinity stored' => exact rightMeasures.elim
      | notANumber => exact rightMeasures.elim
  | infinity stored => exact leftMeasures.elim
  | notANumber => exact leftMeasures.elim

/-- An integer root and what it leaves locate the exact root. -/
private theorem locates_sqrt (radicand : Nat) :
    Locates (.ofMantissaAndAccuracy radicand.sqrt
        (if radicand - radicand.sqrt * radicand.sqrt = 0 then .exact
          else .inexact
            (if radicand - radicand.sqrt * radicand.sqrt ≤ radicand.sqrt
              then .lt else .gt)))
      (√(radicand : ℝ)) := by
  have lower : radicand.sqrt * radicand.sqrt ≤ radicand :=
    Nat.sqrt_le radicand
  have upper : radicand < (radicand.sqrt + 1) * (radicand.sqrt + 1) :=
    Nat.lt_succ_sqrt radicand
  generalize radicand.sqrt = root at lower upper ⊢
  obtain ⟨rest, hrest⟩ : ∃ rest, radicand = root * root + rest :=
    ⟨radicand - root * root, by omega⟩
  have split : (radicand : ℝ) = root * root + rest := by exact_mod_cast hrest
  have rootNonneg : (0 : ℝ) ≤ root := Nat.cast_nonneg root
  rw [show radicand - root * root = rest by omega]
  by_cases exact : rest = 0
  · rw [if_pos exact]
    change √(radicand : ℝ) = root
    rw [split, exact, Nat.cast_zero, add_zero, Real.sqrt_mul_self rootNonneg]
  · rw [if_neg exact]
    have restPos : (0 : ℝ) < rest := by exact_mod_cast Nat.pos_of_ne_zero exact
    by_cases less : rest ≤ root
    · rw [if_pos less]
      have less' : (rest : ℝ) ≤ root := by exact_mod_cast less
      constructor
      · rw [Real.lt_sqrt rootNonneg, split]
        linarith
      · rw [Real.sqrt_lt' (by linarith), split]
        linarith
    · rw [if_neg less]
      have greater : (root : ℝ) + 1 ≤ rest := by exact_mod_cast not_le.mp less
      have below : (rest : ℝ) < 2 * root + 1 := by
        have : rest < 2 * root + 1 := by
          rw [hrest] at upper
          linarith
        exact_mod_cast this
      constructor
      · rw [Real.lt_sqrt (by linarith), split]
        linarith
      · rw [Real.sqrt_lt' (by linarith), split]
        linarith

/-- A radicand that has been shifted far enough has a long root. -/
private theorem le_sqrt_shiftLeft {mantissa count : ℕ}
    (mantissaPos : 0 < mantissa) (far : 46 ≤ mantissa.log2 + count) :
    0x800000 ≤ (mantissa <<< count).sqrt := by
  have lower : 2 ^ mantissa.log2 ≤ mantissa := Nat.log2_self_le mantissaPos.ne'
  rw [Nat.le_sqrt, Nat.shiftLeft_eq]
  calc 0x800000 * 0x800000 = 2 ^ 46 := by norm_num
    _ ≤ 2 ^ (mantissa.log2 + count) := Nat.pow_le_pow_right (by decide) far
    _ = 2 ^ mantissa.log2 * 2 ^ count := pow_add _ _ _
    _ ≤ mantissa * 2 ^ count := Nat.mul_le_mul_right _ lower

theorem sqrt_measures {unpacked : UnpackedFloat} {x : ℝ}
    (measures : Measures .positive x unpacked) :
    ∃ rounded, IsNearest (√x) rounded ∧
      Measures .positive rounded (UnpackedFloat.sqrt .binary32 unpacked) := by
  cases unpacked with
  | zero stored =>
      obtain ⟨rfl, rfl⟩ := measures
      rw [Real.sqrt_zero]
      exact ⟨0, .refl representable_zero, rfl, rfl⟩
  | finite stored mantissa exponent mantissaPos =>
      obtain rfl : stored = .positive := measures.1
      have least : -149 ≤ exponent := measures.2.2.1
      generalize htarget : min (exponent.ediv 2)
        (Format.binary32.targetExponent
          ((totalExponent mantissa exponent + 1).ediv 2)) = target
      have target_eq : target = min (exponent / 2)
          (((mantissa.log2 : ℤ) + exponent + 2) / 2 - 24) := by
        rw [← htarget]
        change min (exponent / 2) (Format.binary32.targetExponent
          (((mantissa.log2 : ℤ) + 1 + exponent + 1) / 2)) = _
        simp only [Format.targetExponent, Format.mantissaBits,
          Format.minExponent]
        norm_num
        omega
      obtain ⟨count, hcount⟩ : ∃ count : ℕ, exponent - 2 * target = count :=
        ⟨(exponent - 2 * target).toNat, by omega⟩
      have long : 0x800000 ≤ (mantissa <<< count).sqrt :=
        le_sqrt_shiftLeft mantissaPos (by omega)
      obtain ⟨rounded, nearest, rootMeasures⟩ := roundWithAccuracy_measures
        .positive target
        (locates_sqrt (mantissa <<< count)) (by omega) (Or.inl long)
      have value : √((mantissa <<< count : ℕ) : ℝ) * 2 ^ target = √x := by
        have power : (0 : ℝ) ≤ 2 ^ target := by positivity
        rw [measures.2.2.2.2, ← Real.sqrt_mul_self power,
          ← Real.sqrt_mul (Nat.cast_nonneg _), Nat.shiftLeft_eq,
          ← zpow_add₀ (by norm_num),
          show exponent = count + (target + target) by omega,
          zpow_add₀ (by norm_num) (count : ℤ), zpow_natCast]
        push_cast
        rw [mul_assoc]
      rw [value] at nearest
      refine ⟨rounded, nearest, ?_⟩
      have result : UnpackedFloat.sqrt .binary32
          (.finite .positive mantissa exponent mantissaPos) =
            roundWithAccuracy .binary32 .positive (mantissa <<< count).sqrt
              target
              (if mantissa <<< count -
                  (mantissa <<< count).sqrt * (mantissa <<< count).sqrt = 0
                then .exact
                else .inexact
                  (if mantissa <<< count -
                      (mantissa <<< count).sqrt * (mantissa <<< count).sqrt ≤
                        (mantissa <<< count).sqrt
                    then .lt else .gt)) := by
        simp only [UnpackedFloat.sqrt, sqrtCore, htarget, hcount,
          Int.toNat_natCast]
      rw [result]
      exact rootMeasures
  | infinity stored => exact measures.elim
  | notANumber => exact measures.elim

end SmallWorld.Scalar
