import SmallWorld.Euclidean
import SmallWorld.Proofs.Scalar.Accumulation
import SmallWorld.Proofs.Scalar.Comparison

/-!
# Accepted vectors

The checks accept the vectors whose components are finite and within a bound.
The bound is computed with four roundings.  Still the squares of twice the
bound, one for each component, add up to little more than half of the range of
the scalars (`greatestComponent_magnitude`), and the other half leaves room for
the roundings of a whole sum.
-/

namespace SmallWorld

open Scalar

structure Acceptable (dimension : Nat) (vector : Coordinates) : Prop where
  length_eq : vector.length = dimension
  isFinite : ∀ value ∈ vector, value.isFinite = true
  inRange : ∀ value ∈ vector, ¬ greatestComponent dimension < value.abs

private theorem firstComponent?_eq_none_iff (property : Scalar → Bool)
    (vector : Coordinates) :
    firstComponent? property vector = none ↔
      ∀ value ∈ vector, property value = false := by
  unfold firstComponent?
  rw [List.find?_eq_none]
  constructor
  · intro absent value member
    obtain ⟨position, inside, found⟩ := List.mem_iff_getElem.mp member
    have := absent (value, position)
      (List.mem_zipIdx_iff_getElem?.mpr (by simp [inside, found]))
    simpa using this
  · rintro absent ⟨value, position⟩ member
    have := absent value (List.fst_mem_of_mem_zipIdx member)
    simpa using this

private theorem requireFinite_eq_ok_iff {vector : Coordinates} :
    requireFinite vector = .ok () ↔
      ∀ value ∈ vector, value.isFinite = true := by
  have noneIff :=
    firstComponent?_eq_none_iff (fun value => !value.isFinite) vector
  simp only [Bool.not_eq_false'] at noneIff
  rw [← noneIff]
  unfold requireFinite
  cases firstComponent? (fun value => !value.isFinite) vector <;> simp

private theorem requireInRange_eq_ok_iff {vector : Coordinates} :
    requireInRange vector = .ok () ↔
      (∀ value ∈ vector, value.isFinite = true) ∧
        ∀ value ∈ vector, ¬ greatestComponent vector.length < value.abs := by
  have noneIff :=
    firstComponent?_eq_none_iff
      (fun value => greatestComponent vector.length < value.abs) vector
  simp only [decide_eq_false_iff_not] at noneIff
  rw [← noneIff, ← requireFinite_eq_ok_iff]
  unfold requireInRange
  cases requireFinite vector with
  | error refusal => exact iff_of_false nofun (fun both => nomatch both.1)
  | ok _ =>
      cases found : firstComponent?
          (fun value => greatestComponent vector.length < value.abs) vector with
      | some entry =>
          refine iff_of_false ?_ (fun both => nomatch both.2)
          simp [found, bind, Except.bind]
      | none => exact iff_of_true (by simp [found, bind, Except.bind]) ⟨rfl, rfl⟩

theorem Acceptable.of_requireInRange {dimension : Nat} {vector : Coordinates}
    (length : vector.length = dimension)
    (inRange : requireInRange vector = .ok ()) :
    Acceptable dimension vector := by
  obtain ⟨isFinite, inRange⟩ := requireInRange_eq_ok_iff.mp inRange
  subst length
  exact ⟨rfl, isFinite, inRange⟩

theorem requireAcceptable_eq_ok_iff {dimension : Nat} {vector : Coordinates} :
    requireAcceptable dimension vector = .ok () ↔
      Acceptable dimension vector := by
  unfold requireAcceptable requireDimension
  by_cases length : vector.length = dimension
  · rw [if_pos length]
    refine ⟨Acceptable.of_requireInRange length, fun acceptable => ?_⟩
    subst length
    exact requireInRange_eq_ok_iff.mpr
      ⟨acceptable.isFinite, acceptable.inRange⟩
  · rw [if_neg length]
    exact iff_of_false nofun (fun acceptable => length acceptable.length_eq)

section Bound

private theorem magnitude_eight : (Scalar.ofBits 0x41000000).Magnitude 8 := by
  change Measures .positive 8
    (.finite .positive 0x800000 (-20) (by decide))
  exact ⟨rfl, by decide, by decide, Or.inl (by decide), by norm_num⟩

private theorem magnitude_greatest :
    Scalar.greatest.Magnitude greatestNumber := by
  change Measures .positive greatestNumber
    (.finite .positive 0xffffff 104 (by decide))
  refine ⟨rfl, by decide, by decide, Or.inl (by decide), ?_⟩
  norm_num [greatestNumber]

/-- The divisor of the bound is at least eight times the dimension, but for
two roundings. -/
private theorem exists_divisor {dimension : Nat} (positive : 1 ≤ dimension)
    (machine : dimension < UInt64.size) :
    ∃ divisor, (Scalar.ofBits 0x41000000 *
        Scalar.ofCount dimension).Magnitude divisor ∧
      8 * dimension * (1 - 2 ^ (-22 : ℤ)) ≤ divisor ∧
      divisor ≤ 2 ^ (70 : ℤ) := by
  have dimensionPos : (1 : ℝ) ≤ dimension := by exact_mod_cast positive
  have dimensionSmall : (dimension : ℝ) ≤ 2 ^ (64 : ℤ) := by
    have : dimension ≤ 2 ^ 64 := machine.le
    exact_mod_cast this
  obtain ⟨count, countNearest, countMagnitude⟩ :=
    magnitude_ofCount positive machine
  have countClose := abs_le.mp (countNearest.abs_sub_le_mul
    ((by norm_num : (2 : ℝ) ^ (-126 : ℤ) ≤ 1).trans dimensionPos))
  have countLe : count ≤ 2 ^ (64 : ℤ) :=
    countNearest.le_of_le (representable_two_zpow (by norm_num))
      dimensionSmall
  have countHalf : dimension * (1 - 2 ^ (-23 : ℤ)) ≤ count := by linarith
  have countPos : (1 : ℝ) / 2 ≤ count := by
    refine le_trans ?_ countHalf
    norm_num
    linarith
  have productLe : 8 * count ≤ 2 ^ (70 : ℤ) := by
    norm_num at countLe ⊢
    linarith
  obtain ⟨product, productNearest, productMagnitude⟩ :=
    magnitude_mul magnitude_eight countMagnitude
      (productLe.trans (by norm_num [greatestNumber]))
  have productClose := abs_le.mp (productNearest.abs_sub_le_mul
    (by norm_num; linarith))
  refine ⟨product, productMagnitude, ?_, productNearest.le_of_le
    (representable_two_zpow (by norm_num)) productLe⟩
  norm_num at countHalf productClose ⊢
  linarith

/-- The square of twice the bound, and with it the square of any difference
of accepted components, is about half of the greatest scalar for each
component. -/
theorem greatestComponent_magnitude {dimension : Nat}
    (positive : 1 ≤ dimension) (machine : dimension < UInt64.size) :
    ∃ bound, (greatestComponent dimension).Magnitude bound ∧
      2 * bound * (2 * bound) * dimension ≤
        2 ^ (127 : ℤ) * (1 + 2 ^ (-20 : ℤ)) := by
  have dimensionPos : (1 : ℝ) ≤ dimension := by exact_mod_cast positive
  obtain ⟨divisor, divisorMagnitude, divisorLower, divisorUpper⟩ :=
    exists_divisor positive machine
  have divisorPos : 1 ≤ divisor := by
    refine le_trans ?_ divisorLower
    norm_num
    linarith
  have greatestPos : 0 < greatestNumber := by norm_num [greatestNumber]
  have quotientLarge : 2 ^ (56 : ℤ) ≤ greatestNumber / divisor := by
    rw [le_div_iff₀ (by linarith)]
    calc (2 : ℝ) ^ (56 : ℤ) * divisor ≤ 2 ^ (56 : ℤ) * 2 ^ (70 : ℤ) :=
          mul_le_mul_of_nonneg_left divisorUpper (by positivity)
      _ ≤ greatestNumber := by norm_num [greatestNumber]
  obtain ⟨quotient, quotientNearest, quotientMagnitude⟩ :=
    magnitude_div magnitude_greatest divisorMagnitude greatestPos
      (by linarith) (le_trans (by norm_num) quotientLarge)
      (div_le_self greatestPos.le divisorPos)
  have quotientClose := abs_le.mp (quotientNearest.abs_sub_le_mul
    (le_trans (by norm_num) quotientLarge))
  have quotientPos : 2 ^ (56 : ℤ) ≤ quotient :=
    quotientNearest.le_of_ge (representable_two_zpow (by norm_num))
      quotientLarge
  have quotientUpper : quotient ≤ greatestNumber :=
    quotientNearest.le_of_le representable_greatestNumber
      (div_le_self greatestPos.le divisorPos)
  obtain ⟨bound, boundNearest, boundMagnitude⟩ :=
    magnitude_sqrt quotientMagnitude quotientUpper
  have rootLarge : 2 ^ (-126 : ℤ) ≤ √quotient := by
    refine Real.le_sqrt_of_sq_le (le_trans ?_ quotientPos)
    norm_num
  have boundClose := abs_le.mp (boundNearest.abs_sub_le_mul rootLarge)
  have boundLe : bound ≤ √quotient * (1 + 2 ^ (-23 : ℤ)) := by linarith
  have squareLe : bound * bound ≤ quotient * (1 + 2 ^ (-23 : ℤ)) ^ 2 := by
    have square := mul_self_le_mul_self boundMagnitude.nonneg boundLe
    rwa [mul_mul_mul_comm, Real.mul_self_sqrt quotientMagnitude.nonneg,
      ← pow_two (1 + _)] at square
  have scaled : quotient * (8 * dimension * (1 - 2 ^ (-22 : ℤ))) ≤
      greatestNumber * (1 + 2 ^ (-23 : ℤ)) := by
    have below : quotient ≤
        greatestNumber / divisor * (1 + 2 ^ (-23 : ℤ)) := by linarith
    calc quotient * (8 * dimension * (1 - 2 ^ (-22 : ℤ)))
        ≤ quotient * divisor :=
          mul_le_mul_of_nonneg_left divisorLower quotientMagnitude.nonneg
      _ ≤ greatestNumber / divisor * (1 + 2 ^ (-23 : ℤ)) * divisor :=
          mul_le_mul_of_nonneg_right below (by linarith)
      _ = greatestNumber * (1 + 2 ^ (-23 : ℤ)) := by
          field_simp
  have product := mul_le_mul_of_nonneg_right squareLe
    (show (0 : ℝ) ≤ dimension by linarith)
  refine ⟨bound, ?_, ?_⟩
  · unfold greatestComponent
    rwa [max_eq_left positive]
  · norm_num [greatestNumber] at scaled product ⊢
    linarith

end Bound

end SmallWorld
