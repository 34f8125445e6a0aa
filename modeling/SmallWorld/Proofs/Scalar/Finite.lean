import SmallWorld.Proofs.Scalar.Arithmetic

/-!
# Arithmetic on finite scalars

A finite scalar stands for a real number.  An operation on finite scalars
ends at a finite scalar, which stands for a number nearest to the exact
result, as long as that result is not beyond the greatest scalar.
-/

namespace SmallWorld.Scalar

open Float.Model UnpackedFloat

/-- The sign, mantissa and exponent that the bits of a scalar stand for. -/
def unpacked (scalar : Scalar) : UnpackedFloat :=
  scalar.value.toModel.unpack

def Stands (scalar : Scalar) (number : ℝ) : Prop :=
  Shows scalar.unpacked number

theorem exists_stands {scalar : Scalar} (finite : scalar.isFinite = true) :
    ∃ number, scalar.Stands number ∧ |number| ≤ greatestNumber := by
  change scalar.unpacked.isFinite = true at finite
  unfold Stands
  unfold unpacked at finite ⊢
  rw [unpack_value] at finite ⊢
  obtain ⟨sign, magnitude, measures, bound⟩ := exists_measures_unpack finite
  refine ⟨signed sign magnitude, ⟨sign, magnitude, measures, rfl⟩, ?_⟩
  rwa [abs_signed measures.nonneg]

theorem Stands.isFinite {scalar : Scalar} {number : ℝ}
    (stands : scalar.Stands number) : scalar.isFinite = true := by
  obtain ⟨sign, magnitude, measures, _⟩ := stands
  change scalar.unpacked.isFinite = true
  generalize scalar.unpacked = unpacked at measures
  cases unpacked with
  | zero stored => rfl
  | finite stored mantissa exponent positive => rfl
  | infinity stored => exact measures.elim
  | notANumber => exact measures.elim

theorem isNaN_of_isFinite {scalar : Scalar}
    (finite : scalar.isFinite = true) : scalar.isNaN = false := by
  change scalar.unpacked.isNaN = false
  change scalar.unpacked.isFinite = true at finite
  generalize scalar.unpacked = unpacked at finite
  cases unpacked with
  | notANumber => cases finite
  | infinity stored => rfl
  | zero stored => rfl
  | finite stored mantissa exponent positive => rfl

theorem Stands.representable {scalar : Scalar} {number : ℝ}
    (stands : scalar.Stands number) : Representable number :=
  Shows.representable stands

private theorem greatestNumber_lt : greatestNumber < 2 ^ (128 : ℤ) := by
  norm_num [greatestNumber]

/-- A result within the range of scalars is rounded within that range. -/
theorem IsNearest.abs_le_greatestNumber {exact rounded : ℝ}
    (nearest : IsNearest exact rounded) (bound : |exact| ≤ greatestNumber) :
    |rounded| ≤ greatestNumber := by
  have stored := representable_greatestNumber
  obtain ⟨lower, upper⟩ := abs_le.mp bound
  exact abs_le.mpr
    ⟨nearest.le_of_ge stored.neg lower, nearest.le_of_le stored upper⟩

private theorem unpack_pack_of_shows {unpacked : UnpackedFloat} {number : ℝ}
    (shown : Shows unpacked number) (bound : |number| ≤ greatestNumber) :
    UnpackedFloat.unpack .binary32 (UnpackedFloat.pack .binary32 unpacked) =
      unpacked := by
  obtain ⟨sign, magnitude, measures, rfl⟩ := shown
  rw [abs_signed measures.nonneg] at bound
  exact unpack_pack measures (bound.trans_lt greatestNumber_lt)

private theorem isNaN_of_shows {unpacked : UnpackedFloat} {number : ℝ}
    (shown : Shows unpacked number) : unpacked.isNaN = false := by
  obtain ⟨sign, magnitude, measures, rfl⟩ := shown
  cases unpacked with
  | notANumber => exact measures.elim
  | infinity stored => rfl
  | zero stored => rfl
  | finite stored mantissa exponent positive => rfl

private theorem unpacked_ofBits {unpacked : UnpackedFloat} {number : ℝ}
    (shown : Shows unpacked number) (bound : |number| ≤ greatestNumber) :
    (Scalar.ofBits (Float32.ofModel (.pack unpacked)).toBits).unpacked =
      unpacked := by
  unfold Scalar.unpacked
  rw [unpack_value]
  exact unpack_pack_of_shows shown bound

private theorem isNaN_pack {unpacked : UnpackedFloat} {number : ℝ}
    (shown : Shows unpacked number) (bound : |number| ≤ greatestNumber) :
    (Float32.ofModel (Float32.Model.pack unpacked)).isNaN = false := by
  change (UnpackedFloat.unpack .binary32
    (UnpackedFloat.pack .binary32 unpacked)).isNaN = false
  rw [unpack_pack_of_shows shown bound]
  exact isNaN_of_shows shown

private theorem unpacked_ofNumber {unpacked : UnpackedFloat} {number : ℝ}
    {nan : Scalar} (shown : Shows unpacked number)
    (bound : |number| ≤ greatestNumber) :
    (ofNumber (.ofModel (.pack unpacked)) nan).unpacked = unpacked := by
  unfold ofNumber
  rw [isNaN_pack shown bound]
  exact unpacked_ofBits shown bound

private theorem stands_ofNumber {unpacked : UnpackedFloat}
    {exact rounded : ℝ} {nan : Scalar} (nearest : IsNearest exact rounded)
    (shown : Shows unpacked rounded) (bound : |exact| ≤ greatestNumber) :
    Stands (ofNumber (.ofModel (.pack unpacked)) nan) rounded := by
  unfold Stands
  rwa [unpacked_ofNumber shown (nearest.abs_le_greatestNumber bound)]

/-- A finite scalar of positive sign stands for a number. -/
def Magnitude (scalar : Scalar) (number : ℝ) : Prop :=
  Measures .positive number scalar.unpacked

theorem Magnitude.stands {scalar : Scalar} {number : ℝ}
    (magnitude : scalar.Magnitude number) : scalar.Stands number :=
  ⟨.positive, number, magnitude, rfl⟩

theorem Magnitude.nonneg {scalar : Scalar} {number : ℝ}
    (magnitude : scalar.Magnitude number) : 0 ≤ number :=
  Measures.nonneg magnitude

private theorem magnitude_ofNumber {unpacked : UnpackedFloat}
    {exact rounded : ℝ} {nan : Scalar} (nearest : IsNearest exact rounded)
    (measures : Measures .positive rounded unpacked)
    (bound : |exact| ≤ greatestNumber) :
    Magnitude (ofNumber (.ofModel (.pack unpacked)) nan) rounded := by
  unfold Magnitude
  rwa [unpacked_ofNumber ⟨.positive, rounded, measures, rfl⟩
    (nearest.abs_le_greatestNumber bound)]

section Operations

variable {left right : Scalar} {x y : ℝ}

theorem stands_sub (leftStands : left.Stands x) (rightStands : right.Stands y)
    (bound : |x - y| ≤ greatestNumber) :
    ∃ rounded, IsNearest (x - y) rounded ∧ (left - right).Stands rounded := by
  obtain ⟨rounded, nearest, shown⟩ := sub_shows leftStands rightStands
  exact ⟨rounded, nearest, stands_ofNumber nearest shown bound⟩

theorem unpacked_sub (leftStands : left.Stands x)
    (rightStands : right.Stands y) (bound : |x - y| ≤ greatestNumber) :
    (left - right).unpacked =
      UnpackedFloat.sub .binary32 left.unpacked right.unpacked := by
  obtain ⟨rounded, nearest, shown⟩ := sub_shows leftStands rightStands
  exact unpacked_ofNumber shown (nearest.abs_le_greatestNumber bound)

theorem magnitude_add (leftMagnitude : left.Magnitude x)
    (rightMagnitude : right.Magnitude y) (bound : x + y ≤ greatestNumber) :
    ∃ rounded, IsNearest (x + y) rounded ∧
      (left + right).Magnitude rounded := by
  obtain ⟨rounded, nearest, measures⟩ :=
    add_measures leftMagnitude rightMagnitude
  refine ⟨rounded, nearest, magnitude_ofNumber nearest measures ?_⟩
  rwa [abs_of_nonneg (add_nonneg leftMagnitude.nonneg rightMagnitude.nonneg)]

/-- The negative zero is neutral, also to the sign of a zero. -/
theorem magnitude_negativeZero_add (magnitude : left.Magnitude x)
    (bound : x ≤ greatestNumber) : (negativeZero + left).Magnitude x := by
  have start : negativeZero.unpacked = .zero .negative := rfl
  have kept : UnpackedFloat.add .binary32 negativeZero.unpacked
      left.unpacked = left.unpacked := by
    rw [start]
    unfold Magnitude at magnitude
    generalize left.unpacked = unpacked at magnitude
    cases unpacked with
    | zero stored =>
        obtain ⟨rfl, -⟩ := magnitude
        rfl
    | finite stored mantissa exponent positive => rfl
    | infinity stored => exact magnitude.elim
    | notANumber => exact magnitude.elim
  refine magnitude_ofNumber (.refl magnitude.stands.representable) ?_
    (by rwa [abs_of_nonneg magnitude.nonneg])
  change Measures .positive x (UnpackedFloat.add .binary32
    negativeZero.unpacked left.unpacked)
  rwa [kept]

theorem magnitude_mul (leftMagnitude : left.Magnitude x)
    (rightMagnitude : right.Magnitude y) (bound : x * y ≤ greatestNumber) :
    ∃ rounded, IsNearest (x * y) rounded ∧
      (left * right).Magnitude rounded := by
  obtain ⟨rounded, nearest, measures⟩ :=
    mul_measures leftMagnitude rightMagnitude
  refine ⟨rounded, nearest, magnitude_ofNumber nearest measures ?_⟩
  rwa [abs_of_nonneg (mul_nonneg leftMagnitude.nonneg rightMagnitude.nonneg)]

theorem magnitude_square (stands : left.Stands x)
    (bound : x * x ≤ greatestNumber) :
    ∃ rounded, IsNearest (x * x) rounded ∧
      (left * left).Magnitude rounded := by
  obtain ⟨sign, magnitude, measures, rfl⟩ := stands
  have square : signed sign magnitude * signed sign magnitude =
      magnitude * magnitude := by
    cases sign with
    | negative => exact neg_mul_neg magnitude magnitude
    | positive => rfl
  have positive : sign * sign = .positive := by
    cases sign <;> rfl
  obtain ⟨rounded, nearest, product⟩ := mul_measures measures measures
  rw [square] at bound ⊢
  rw [positive] at product
  refine ⟨rounded, nearest, magnitude_ofNumber nearest product ?_⟩
  rwa [abs_of_nonneg (mul_self_nonneg magnitude)]

theorem mul_self_eq (stands : left.Stands x) (bound : x * x ≤ greatestNumber)
    (equal : UnpackedFloat.mul .binary32 left.unpacked left.unpacked =
      UnpackedFloat.mul .binary32 right.unpacked right.unpacked) :
    left * left = right * right := by
  obtain ⟨rounded, nearest, shown⟩ := mul_shows stands stands
  have isNumber := isNaN_pack shown (nearest.abs_le_greatestNumber
    (by rwa [abs_of_nonneg (mul_self_nonneg x)]))
  change ofNumber (.ofModel (.pack (UnpackedFloat.mul .binary32
      left.unpacked left.unpacked))) _ =
    ofNumber (.ofModel (.pack (UnpackedFloat.mul .binary32
      right.unpacked right.unpacked))) _
  rw [← equal]
  unfold ofNumber
  rw [isNumber]
  rfl

theorem magnitude_div (leftMagnitude : left.Magnitude x)
    (rightMagnitude : right.Magnitude y) (leftPos : 0 < x) (rightPos : 0 < y)
    (large : 2 ^ (-100 : ℤ) ≤ x / y) (bound : x / y ≤ greatestNumber) :
    ∃ rounded, IsNearest (x / y) rounded ∧
      (left / right).Magnitude rounded := by
  obtain ⟨rounded, nearest, measures⟩ :=
    div_measures leftMagnitude rightMagnitude leftPos rightPos large
  exact ⟨rounded, nearest, magnitude_ofNumber nearest measures
    (by rwa [abs_of_pos (div_pos leftPos rightPos)])⟩

theorem magnitude_sqrt (magnitude : left.Magnitude x)
    (bound : x ≤ greatestNumber) :
    ∃ rounded, IsNearest (√x) rounded ∧ left.sqrt.Magnitude rounded := by
  obtain ⟨rounded, nearest, measures⟩ := sqrt_measures magnitude
  refine ⟨rounded, nearest, magnitude_ofNumber nearest measures ?_⟩
  rw [abs_of_nonneg (Real.sqrt_nonneg x)]
  have one : (1 : ℝ) ≤ greatestNumber := by norm_num [greatestNumber]
  refine Real.sqrt_le_iff.mpr ⟨by linarith, bound.trans ?_⟩
  nlinarith

theorem magnitude_ofCount {count : Nat} (positive : 0 < count)
    (bound : count < UInt64.size) :
    ∃ rounded, IsNearest count rounded ∧
      (ofCount count).Magnitude rounded := by
  obtain ⟨rounded, nearest, measures⟩ :=
    normalize_measures (show 0 < (count : ℤ) by omega) 0 .positive
  rw [Int.cast_natCast, zpow_zero, mul_one] at nearest
  have small : (count : ℝ) ≤ 2 ^ (64 : ℤ) := by
    have : (count : ℝ) ≤ (2 ^ 64 : ℕ) := by exact_mod_cast bound.le
    exact_mod_cast this
  have inside : |(count : ℝ)| ≤ greatestNumber := by
    rw [abs_of_nonneg (Nat.cast_nonneg count)]
    refine small.trans ?_
    norm_num [greatestNumber]
  have toNat : count.toUInt64.toNat = count := Nat.mod_eq_of_lt bound
  refine ⟨rounded, nearest, ?_⟩
  unfold Magnitude ofCount
  change Measures .positive rounded (Scalar.ofBits (Float32.ofModel (.pack
    (UnpackedFloat.normalize .binary32 count.toUInt64.toNat 0
      .positive))).toBits).unpacked
  rw [toNat, unpacked_ofBits ⟨.positive, rounded, measures, rfl⟩
    (nearest.abs_le_greatestNumber inside)]
  exact measures

end Operations

end SmallWorld.Scalar
