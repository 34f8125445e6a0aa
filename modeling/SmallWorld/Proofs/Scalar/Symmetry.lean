import SmallWorld.Proofs.Scalar.Finite

/-!
# Squares of differences

Rounding treats both signs alike, so the two differences of two scalars have
the same square.  The differences themselves are opposite, but for equal
operands: their difference is a zero whose sign does not depend on the order.
-/

namespace SmallWorld.Scalar

open Float.Model UnpackedFloat

private theorem mul_self_neg (unpacked : UnpackedFloat) :
    UnpackedFloat.mul .binary32 unpacked.neg unpacked.neg =
      UnpackedFloat.mul .binary32 unpacked unpacked := by
  rcases unpacked with (_ | _) | _ | (_ | _) | ⟨_ | _, mantissa, exponent, _⟩ <;>
    rfl

private theorem round_negative (mantissa : Nat) (exponent : ℤ) :
    UnpackedFloat.round .binary32 .negative mantissa exponent =
      (UnpackedFloat.round .binary32 .positive mantissa exponent).neg := by
  simp only [UnpackedFloat.round, UnpackedFloat.roundWithAccuracy]
  split
  · rfl
  · rfl

/-- Opposite sums are rounded to opposite numbers, and an empty one to zero. -/
private theorem normalize_neg (mantissa exponent : ℤ) :
    UnpackedFloat.normalize .binary32 (-mantissa) exponent .positive =
        (UnpackedFloat.normalize .binary32 mantissa exponent .positive).neg ∨
      UnpackedFloat.normalize .binary32 (-mantissa) exponent .positive =
        UnpackedFloat.normalize .binary32 mantissa exponent .positive := by
  unfold UnpackedFloat.normalize
  rcases lt_trichotomy mantissa 0 with negative | zero | positive
  · left
    rw [Int.compare_eq_lt.mpr negative,
      Int.compare_eq_gt.mpr (Int.neg_pos.mpr negative)]
    dsimp only
    rw [round_negative]
    generalize UnpackedFloat.round .binary32 .positive _ _ = rounded
    rcases rounded with (_ | _) | _ | (_ | _) | ⟨_ | _, _, _, _⟩ <;> rfl
  · right
    subst zero
    rfl
  · left
    rw [Int.compare_eq_gt.mpr positive,
      Int.compare_eq_lt.mpr (Int.neg_neg_of_pos positive)]
    dsimp only
    rw [Int.neg_neg, round_negative]

private theorem sub_swap (left right : UnpackedFloat) :
    UnpackedFloat.sub .binary32 right left =
        (UnpackedFloat.sub .binary32 left right).neg ∨
      UnpackedFloat.sub .binary32 right left =
        UnpackedFloat.sub .binary32 left right := by
  rcases left with sign | _ | sign | ⟨sign, mantissa, exponent, positive⟩
  case finite =>
    rcases right with sign' | _ | sign' | ⟨sign', mantissa', exponent', positive'⟩
    case finite =>
      have opposite := normalize_neg
        (sign.apply (decreaseExponent mantissa exponent
            (min exponent exponent')).1 -
          sign'.apply (decreaseExponent mantissa' exponent'
            (min exponent exponent')).1)
        (min exponent exponent')
      rw [Int.neg_sub] at opposite
      simp only [UnpackedFloat.sub, Int.min_comm exponent' exponent]
      exact opposite
    case notANumber => exact Or.inr rfl
    all_goals cases sign <;> cases sign' <;> exact Or.inl rfl
  case notANumber =>
    rcases right with sign' | _ | sign' | ⟨sign', mantissa', exponent', positive'⟩
    all_goals exact Or.inr rfl
  all_goals
    rcases right with sign' | _ | sign' | ⟨sign', mantissa', exponent', positive'⟩
  case infinity.notANumber => exact Or.inr rfl
  case zero.notANumber => exact Or.inr rfl
  all_goals
    cases sign <;> cases sign' <;> first | exact Or.inl rfl | exact Or.inr rfl

private theorem mul_self_sub_unpacked (left right : UnpackedFloat) :
    UnpackedFloat.mul .binary32 (UnpackedFloat.sub .binary32 left right)
        (UnpackedFloat.sub .binary32 left right) =
      UnpackedFloat.mul .binary32 (UnpackedFloat.sub .binary32 right left)
        (UnpackedFloat.sub .binary32 right left) := by
  rcases sub_swap left right with opposite | equal
  · rw [opposite, mul_self_neg]
  · rw [equal]

theorem mul_self_sub_comm {left right : Scalar} {x y difference : ℝ}
    (leftStands : left.Stands x) (rightStands : right.Stands y)
    (bound : |x - y| ≤ greatestNumber)
    (stands : (left - right).Stands difference)
    (squareBound : difference * difference ≤ greatestNumber) :
    (left - right) * (left - right) = (right - left) * (right - left) := by
  refine mul_self_eq stands squareBound ?_
  rw [unpacked_sub leftStands rightStands bound,
    unpacked_sub rightStands leftStands (by rwa [abs_sub_comm])]
  exact mul_self_sub_unpacked left.unpacked right.unpacked

end SmallWorld.Scalar
