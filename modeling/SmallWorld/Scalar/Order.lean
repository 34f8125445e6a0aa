import SmallWorld.Scalar.Fields

/-!
# The order of scalars

The IEEE comparison of two scalars is the comparison of two integers: the
signed number of steps from zero to each of them.  `Scalar.lt_iff` says so,
and the laws of a strict order follow from it.
-/

namespace SmallWorld.Scalar

open Float.Model UnpackedFloat

/-- The number of representable scalars passed on the way from zero to the
given one, negative below zero. -/
def steps (scalar : Scalar) : Int :=
  let bits := scalar.bits.toNat
  if bits < 0x80000000 then bits else 0x80000000 - (bits : Int)

private theorem compare_eq_lt {left right : Int} (less : left < right) :
    compare left right = .lt := by
  simp [compare, compareOfLessAndEq, less]

private theorem compare_eq_gt {left right : Int} (less : right < left) :
    compare left right = .gt := by
  have notLess : ¬ left < right := by omega
  have notEqual : ¬ left = right := by omega
  simp [compare, compareOfLessAndEq, notLess, notEqual]

private theorem compare_eq_eq {left right : Int} (equal : left = right) :
    compare left right = .eq := by
  subst equal
  simp [compare, compareOfLessAndEq]

private theorem natCompare_eq_lt {left right : Nat} (less : left < right) :
    compare left right = .lt := by
  simp [compare, compareOfLessAndEq, less]

private theorem natCompare_eq_gt {left right : Nat} (less : right < left) :
    compare left right = .gt := by
  have notLess : ¬ left < right := by omega
  have notEqual : ¬ left = right := by omega
  simp [compare, compareOfLessAndEq, notLess, notEqual]

private theorem natCompare_eq_eq {left right : Nat} (equal : left = right) :
    compare left right = .eq := by
  subst equal
  simp [compare, compareOfLessAndEq]

/-- Two numbers written with an exponent and a mantissa compare by exponent
first, whenever that agrees with the order of the numbers themselves. -/
private theorem compare_lexicographic
    {exponent exponent' : Int} {mantissa mantissa' : Nat} {left right : Int}
    (exponentLess : exponent < exponent' → left < right)
    (exponentGreater : exponent' < exponent → right < left)
    (mantissaLess :
      exponent = exponent' → mantissa < mantissa' → left < right)
    (mantissaGreater :
      exponent = exponent' → mantissa' < mantissa → right < left)
    (same : exponent = exponent' → mantissa = mantissa' → left = right) :
    (compare exponent exponent').then (compare mantissa mantissa') =
      compare left right := by
  rcases Int.lt_trichotomy exponent exponent' with less | equal | greater
  · rw [compare_eq_lt less, compare_eq_lt (exponentLess less)]
    rfl
  · rcases Nat.lt_trichotomy mantissa mantissa' with less | equal' | greater
    · rw [compare_eq_eq equal, natCompare_eq_lt less,
        compare_eq_lt (mantissaLess equal less)]
      rfl
    · rw [compare_eq_eq equal, natCompare_eq_eq equal',
        compare_eq_eq (same equal equal')]
      rfl
    · rw [compare_eq_eq equal, natCompare_eq_gt greater,
        compare_eq_gt (mantissaGreater equal greater)]
      rfl
  · rw [compare_eq_gt greater, compare_eq_gt (exponentGreater greater)]
    rfl

private theorem swap_compare (left right : Int) :
    (compare left right).swap = compare (-left) (-right) := by
  rcases Int.lt_trichotomy left right with less | equal | greater
  · rw [compare_eq_lt less, compare_eq_gt (by omega)]
    rfl
  · rw [compare_eq_eq equal, compare_eq_eq (by omega)]
    rfl
  · rw [compare_eq_gt greater, compare_eq_lt (by omega)]
    rfl

/-- The given integer is the number of steps from zero to the number. -/
private def StepsTo : UnpackedFloat → Int → Prop
  | .infinity .positive, count => count = 0x7f800000
  | .infinity .negative, count => count = -(0x7f800000)
  | .notANumber, _ => False
  | .zero _, count => count = 0
  | .finite .positive mantissa exponent _, count =>
      -149 ≤ exponent ∧ exponent ≤ 104 ∧ mantissa < 0x1000000 ∧
        (mantissa < 0x800000 → exponent = -149) ∧
        count = (exponent + 149) * 0x800000 + mantissa
  | .finite .negative mantissa exponent _, count =>
      -149 ≤ exponent ∧ exponent ≤ 104 ∧ mantissa < 0x1000000 ∧
        (mantissa < 0x800000 → exponent = -149) ∧
        count = -((exponent + 149) * 0x800000 + mantissa)

private theorem compare_of_stepsTo
    {left right : UnpackedFloat} {leftSteps rightSteps : Int}
    (leftCount : StepsTo left leftSteps)
    (rightCount : StepsTo right rightSteps) :
    left.compare right = some (compare leftSteps rightSteps) := by
  rcases left with (_ | _) | _ | _ | ⟨_ | _, mantissa, exponent, positive⟩ <;>
    rcases right with
      (_ | _) | _ | _ | ⟨_ | _, mantissa', exponent', positive'⟩ <;>
    dsimp only [StepsTo] at leftCount rightCount <;>
    dsimp only [UnpackedFloat.compare] <;>
    (try apply congrArg some)
  all_goals first
    | contradiction
    | (symm; apply compare_eq_lt; omega)
    | (symm; apply compare_eq_gt; omega)
    | (symm; apply compare_eq_eq; omega)
    | (refine compare_lexicographic ?_ ?_ ?_ ?_ ?_ <;> omega)
    | (rw [← Int.neg_neg leftSteps, ← Int.neg_neg rightSteps,
        ← swap_compare (-leftSteps)]
       congr 1
       refine compare_lexicographic ?_ ?_ ?_ ?_ ?_ <;> omega)

private theorem stepsTo_unpack (bits : BitVec 32)
    (number :
      (UnpackedFloat.unpack Format.binary32 bits).isNaN = false) :
    StepsTo (UnpackedFloat.unpack Format.binary32 bits)
      (if bits.toNat < 0x80000000 then bits.toNat
        else 0x80000000 - (bits.toNat : Int)) := by
  have bound := bits.isLt
  unfold UnpackedFloat.unpack at number ⊢
  dsimp only at number ⊢
  rw [sign_unpackSign] at number ⊢
  by_cases largest : bits.toNat / 0x800000 % 256 = 255
  · rw [if_pos ((unpackExponent_eq_full_iff bits).mpr largest)] at number ⊢
    by_cases noFraction : bits.toNat % 0x800000 = 0
    · rw [if_pos ((unpackMantissa_eq_zero_iff bits).mpr noFraction)]
      by_cases positive : bits.toNat < 0x80000000
      · rw [if_pos positive, if_pos positive]
        change _ = _
        omega
      · rw [if_neg positive, if_neg positive]
        change _ = _
        omega
    · rw [if_neg (mt (unpackMantissa_eq_zero_iff bits).mp noFraction)]
        at number
      cases number
  · rw [if_neg (mt (unpackExponent_eq_full_iff bits).mp largest)]
    by_cases smallest : bits.toNat / 0x800000 % 256 = 0
    · rw [if_pos ((unpackExponent_eq_zero_iff bits).mpr smallest)]
      by_cases noFraction : bits.toNat % 0x800000 = 0
      · rw [dif_pos ((unpackMantissa_eq_zero_iff bits).mpr noFraction)]
        change _ = _
        split <;> omega
      · rw [dif_neg (mt (unpackMantissa_eq_zero_iff bits).mp noFraction)]
        have biasNat :
            ((Format.exponentBias Format.binary32 : Nat) : Int) = 127 := rfl
        by_cases positive : bits.toNat < 0x80000000
        · rw [if_pos positive, if_pos positive]
          change _ ∧ _ ∧ _ ∧ _ ∧ _
          rw [toNat_unpackExponent, toNat_unpackMantissa, biasNat]
          omega
        · rw [if_neg positive, if_neg positive]
          change _ ∧ _ ∧ _ ∧ _ ∧ _
          rw [toNat_unpackExponent, toNat_unpackMantissa, biasNat]
          omega
    · rw [if_neg (mt (unpackExponent_eq_zero_iff bits).mp smallest)]
      have biasNat :
          ((Format.exponentBias Format.binary32 : Nat) : Int) = 127 := rfl
      by_cases positive : bits.toNat < 0x80000000
      · rw [if_pos positive, if_pos positive]
        change _ ∧ _ ∧ _ ∧ _ ∧ _
        rw [toNat_unpackExponent, toNat_implicitBit_append, biasNat]
        omega
      · rw [if_neg positive, if_neg positive]
        change _ ∧ _ ∧ _ ∧ _ ∧ _
        rw [toNat_unpackExponent, toNat_implicitBit_append, biasNat]
        omega

/-- Two numbers compare as their distances in steps from zero do. -/
theorem compare_unpack {left right : Scalar}
    (leftNumber : left.isNaN = false) (rightNumber : right.isNaN = false) :
    left.value.toModel.unpack.compare right.value.toModel.unpack =
      some (compare (steps left) (steps right)) := by
  change left.value.toModel.unpack.isNaN = false at leftNumber
  change right.value.toModel.unpack.isNaN = false at rightNumber
  rw [unpack_value] at leftNumber rightNumber
  rw [unpack_value, unpack_value]
  exact compare_of_stepsTo
    (stepsTo_unpack left.bits.toBitVec leftNumber)
    (stepsTo_unpack right.bits.toBitVec rightNumber)

private theorem unpack_of_isNaN {scalar : Scalar}
    (isNaN : scalar.isNaN = true) :
    scalar.value.toModel.unpack = .notANumber :=
  eq_notANumber_of_isNaN isNaN

private theorem compare_notANumber_left (number : UnpackedFloat) :
    UnpackedFloat.notANumber.compare number = none := by
  cases number <;> rfl

private theorem compare_notANumber_right (number : UnpackedFloat) :
    number.compare .notANumber = none := by
  rcases number with (_ | _) | _ | _ | ⟨_ | _, _, _, _⟩ <;> rfl

/-- One scalar is below another exactly when the comparison of their numbers
says so. -/
theorem lt_iff_compare {left right : Scalar} :
    left < right ↔
      left.value.toModel.unpack.compare right.value.toModel.unpack =
        some .lt := by
  change (decide
    (UnpackedFloat.lt left.value.toModel.unpack
      right.value.toModel.unpack = true)) = true ↔ _
  rw [decide_eq_true_iff, UnpackedFloat.lt]
  exact beq_iff_eq

/-- One scalar is below another exactly when neither is a NaN and it is fewer
steps above zero. -/
theorem lt_iff {left right : Scalar} :
    left < right ↔
      left.isNaN = false ∧ right.isNaN = false ∧
        steps left < steps right := by
  rw [lt_iff_compare]
  cases leftNaN : left.isNaN with
  | true =>
      rw [unpack_of_isNaN leftNaN, compare_notANumber_left]
      simp
  | false =>
      cases rightNaN : right.isNaN with
      | true =>
          rw [unpack_of_isNaN rightNaN, compare_notANumber_right]
          simp
      | false =>
          rw [compare_unpack leftNaN rightNaN]
          simp only [true_and, Option.some.injEq]
          constructor
          · intro isLess
            rcases Int.lt_trichotomy (steps left) (steps right) with
              less | equal | greater
            · exact less
            · rw [compare_eq_eq equal] at isLess
              cases isLess
            · rw [compare_eq_gt greater] at isLess
              cases isLess
          · exact compare_eq_lt

theorem lt_irrefl (value : Scalar) : ¬ value < value := by
  intro less
  have strict := (lt_iff.mp less).2.2
  omega

theorem lt_trans {first second third : Scalar}
    (firstLess : first < second) (secondLess : second < third) :
    first < third := by
  obtain ⟨firstNumber, _, firstSteps⟩ := lt_iff.mp firstLess
  obtain ⟨_, thirdNumber, secondSteps⟩ := lt_iff.mp secondLess
  exact lt_iff.mpr ⟨firstNumber, thirdNumber, by omega⟩

end SmallWorld.Scalar
