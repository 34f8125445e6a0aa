import SmallWorld.Proofs.Acceptance
import SmallWorld.Proofs.Scalar.Symmetry

/-!
# Distances of accepted vectors

The distance of two accepted vectors is finite, is not below the positive
zero, and does not depend on their order.  So the fault of a broken distance
cannot come from accepted vectors, and their distances compare as their ranks
do.  On the way to a distance no partial sum overflows either, whatever the
dimension (`squaredDistance_isFinite`).
-/

namespace SmallWorld

open Float.Model UnpackedFloat Scalar

structure BoundsComponents (dimension : Nat) (bound : ℝ) : Prop where
  positive : 1 ≤ dimension
  machine : dimension < UInt64.size
  representable : Representable bound
  square_le : 2 * bound * (2 * bound) * dimension ≤
    2 ^ (127 : ℤ) * (1 + 2 ^ (-20 : ℤ))

namespace BoundsComponents

variable {dimension : Nat} {bound : ℝ} {left right : Scalar} {x y : ℝ}

theorem double_square_le (bounds : BoundsComponents dimension bound) :
    2 * bound * (2 * bound) ≤ 2 ^ (127 : ℤ) * (1 + 2 ^ (-20 : ℤ)) := by
  refine le_trans (le_mul_of_one_le_right (mul_self_nonneg _) ?_)
    bounds.square_le
  exact_mod_cast bounds.positive

theorem double_le (bounds : BoundsComponents dimension bound) :
    2 * bound ≤ greatestNumber := by
  by_contra beyond
  have large : (2 : ℝ) ^ (64 : ℤ) ≤ 2 * bound := by
    refine le_trans ?_ (le_of_not_ge beyond)
    norm_num [greatestNumber]
  have square := mul_self_le_mul_self (by positivity) large
  have := square.trans bounds.double_square_le
  norm_num at this

/-- A difference of two components is rounded to at most twice the bound. -/
theorem exists_difference (bounds : BoundsComponents dimension bound)
    (leftStands : left.Stands x) (rightStands : right.Stands y)
    (leftBound : |x| ≤ bound) (rightBound : |y| ≤ bound) :
    |x - y| ≤ greatestNumber ∧
      ∃ difference, (left - right).Stands difference ∧
        |difference| ≤ 2 * bound := by
  have inside : |x - y| ≤ 2 * bound := by
    have := abs_sub x y
    linarith
  obtain ⟨rounded, nearest, stands⟩ :=
    stands_sub leftStands rightStands (inside.trans bounds.double_le)
  refine ⟨inside.trans bounds.double_le, rounded, stands, ?_⟩
  have stored := bounds.representable.double
  obtain ⟨lower, upper⟩ := abs_le.mp inside
  exact abs_le.mpr
    ⟨nearest.le_of_ge stored.neg lower, nearest.le_of_le stored upper⟩

/-- The square of a difference is small enough to be summed over all
components. -/
theorem exists_square (bounds : BoundsComponents dimension bound)
    {difference : ℝ} (stands : left.Stands difference)
    (inside : |difference| ≤ 2 * bound) :
    ∃ square, (left * left).Magnitude square ∧
      square ≤ Accumulates.termBound dimension := by
  have dimensionPos : (0 : ℝ) < dimension := by
    exact_mod_cast bounds.positive
  have squareLe : difference * difference ≤ 2 * bound * (2 * bound) := by
    rw [← abs_mul_abs_self difference]
    exact mul_self_le_mul_self (abs_nonneg _) inside
  obtain ⟨rounded, nearest, magnitude⟩ :=
    magnitude_square stands ((squareLe.trans bounds.double_square_le).trans
      (by norm_num [greatestNumber]))
  refine ⟨rounded, magnitude, ?_⟩
  rw [Accumulates.termBound_eq, le_div_iff₀ dimensionPos]
  rcases le_total (2 ^ (-126 : ℤ)) (difference * difference) with
    normal | tiny
  · have close := (abs_le.mp (nearest.abs_sub_le_mul normal)).2
    calc rounded * dimension
        ≤ 2 * bound * (2 * bound) * (1 + 2 ^ (-23 : ℤ)) * dimension := by
          refine mul_le_mul_of_nonneg_right ?_ dimensionPos.le
          norm_num at close ⊢
          linarith
      _ = 2 * bound * (2 * bound) * dimension * (1 + 2 ^ (-23 : ℤ)) := by
          ring
      _ ≤ 2 ^ (127 : ℤ) * (1 + 2 ^ (-20 : ℤ)) * (1 + 2 ^ (-23 : ℤ)) :=
          mul_le_mul_of_nonneg_right bounds.square_le (by positivity)
      _ ≤ 2 ^ (127 : ℤ) * (1 + 2 ^ (-19 : ℤ)) := by norm_num
  · have small : rounded ≤ 2 ^ (-126 : ℤ) :=
      nearest.le_of_le (representable_two_zpow (by norm_num)) tiny
    have dimensionSmall : (dimension : ℝ) ≤ 2 ^ (64 : ℤ) := by
      have : dimension ≤ 2 ^ 64 := bounds.machine.le
      exact_mod_cast this
    calc rounded * dimension ≤ 2 ^ (-126 : ℤ) * 2 ^ (64 : ℤ) :=
          mul_le_mul small dimensionSmall dimensionPos.le (by positivity)
      _ ≤ 2 ^ (127 : ℤ) * (1 + 2 ^ (-19 : ℤ)) := by norm_num

end BoundsComponents

/-- Every sum of accepted squares can be continued up to their number. -/
theorem exists_foldl_add {total count : Nat} {start : Scalar}
    {partialSum : ℝ} {terms : List Scalar}
    (bounded : ∀ term ∈ terms, ∃ square, term.Magnitude square ∧
      square ≤ Accumulates.termBound total)
    (startMagnitude : start.Magnitude partialSum)
    (accumulates :
      Accumulates (Accumulates.termBound total) count partialSum)
    (counted : count + terms.length ≤ total) :
    ∃ sum, (terms.foldl (· + ·) start).Magnitude sum ∧
      Accumulates (Accumulates.termBound total) (count + terms.length)
        sum := by
  induction terms generalizing start count partialSum with
  | nil => exact ⟨partialSum, startMagnitude, accumulates⟩
  | cons term rest inductionHypothesis =>
      rw [List.length_cons] at counted
      obtain ⟨square, magnitude, small⟩ := bounded term List.mem_cons_self
      obtain ⟨rounded, nearest, sum⟩ :=
        magnitude_add startMagnitude magnitude
          ((add_le_add_right small _).trans
            (accumulates.add_le_greatestNumber (by omega)))
      have further := inductionHypothesis
        (fun later member => bounded later (List.mem_cons_of_mem _ member))
        sum (accumulates.step magnitude.nonneg small nearest) (by omega)
      rwa [Nat.add_right_comm] at further

/-- A sum of accepted squares is finite and of positive sign, unless it is
empty. -/
theorem exists_scalarSum {total : ℕ} (terms : List Scalar)
    (nonempty : terms ≠ []) (counted : terms.length ≤ total)
    (bounded : ∀ term ∈ terms, ∃ square, term.Magnitude square ∧
      square ≤ Accumulates.termBound total) :
    ∃ sum, (scalarSum terms).Magnitude sum ∧ sum ≤ greatestNumber := by
  cases terms with
  | nil => exact (nonempty rfl).elim
  | cons first rest =>
      rw [List.length_cons] at counted
      obtain ⟨square, magnitude, small⟩ := bounded first List.mem_cons_self
      have room := Accumulates.none.add_le_greatestNumber
        (show 0 < total by omega)
      have start := magnitude_negativeZero_add magnitude (by linarith)
      have single : Accumulates (Accumulates.termBound total) 1 square := by
        refine .step .none magnitude.nonneg small ?_
        rw [zero_add]
        exact .refl magnitude.stands.representable
      obtain ⟨sum, sumMagnitude, accumulates⟩ := exists_foldl_add
        (fun term member => bounded term (List.mem_cons_of_mem _ member))
        start single (by omega)
      exact ⟨sum, sumMagnitude, accumulates.le_greatestNumber (by omega)⟩

namespace Acceptable

variable {dimension : Nat} {left right : Coordinates}

theorem boundsComponents (positive : 1 ≤ dimension)
    (machine : dimension < UInt64.size) :
    ∃ bound, (greatestComponent dimension).Magnitude bound ∧
      BoundsComponents dimension bound := by
  obtain ⟨bound, magnitude, square⟩ :=
    greatestComponent_magnitude positive machine
  exact ⟨bound, magnitude, positive, machine,
    magnitude.stands.representable, square⟩

theorem exists_component (acceptable : Acceptable dimension left)
    {bound : ℝ} (magnitude : (greatestComponent dimension).Magnitude bound)
    {value : Scalar} (member : value ∈ left) :
    ∃ number, value.Stands number ∧ |number| ≤ bound := by
  obtain ⟨number, stands, _⟩ :=
    exists_stands (acceptable.isFinite value member)
  refine ⟨number, stands, ?_⟩
  by_contra beyond
  exact acceptable.inRange value member
    (magnitude.lt_of_lt (magnitude_abs stands) (not_le.mp beyond))

/-- What one component of two accepted vectors adds to their squared
distance. -/
theorem exists_term (positive : 1 ≤ dimension)
    (machine : dimension < UInt64.size)
    (leftAcceptable : Acceptable dimension left)
    (rightAcceptable : Acceptable dimension right) {x y : Scalar}
    (leftMember : x ∈ left) (rightMember : y ∈ right) :
    (∃ square, ((x - y) * (x - y)).Magnitude square ∧
        square ≤ Accumulates.termBound dimension) ∧
      (x - y) * (x - y) = (y - x) * (y - x) := by
  obtain ⟨bound, magnitude, bounds⟩ := boundsComponents positive machine
  obtain ⟨xNumber, xStands, xBound⟩ :=
    leftAcceptable.exists_component magnitude leftMember
  obtain ⟨yNumber, yStands, yBound⟩ :=
    rightAcceptable.exists_component magnitude rightMember
  obtain ⟨inRange, difference, stands, inside⟩ :=
    bounds.exists_difference xStands yStands xBound yBound
  refine ⟨bounds.exists_square stands inside,
    mul_self_sub_comm xStands yStands inRange stands ?_⟩
  rw [← abs_mul_abs_self difference]
  refine (mul_self_le_mul_self (abs_nonneg _) inside).trans
    (bounds.double_square_le.trans ?_)
  norm_num [greatestNumber]

/-- No sum over the first components exceeds the greatest scalar. -/
theorem squaredDistance_magnitude (positive : 1 ≤ dimension)
    (machine : dimension < UInt64.size)
    (leftAcceptable : Acceptable dimension left)
    (rightAcceptable : Acceptable dimension right) {count : Nat}
    (countPos : 1 ≤ count) :
    ∃ sum, (squaredDistance (left.take count) (right.take count)).Magnitude
      sum ∧ sum ≤ greatestNumber := by
  have termCount : (List.zipWith (fun x y => (x - y) * (x - y))
      (left.take count) (right.take count)).length = min count dimension := by
    rw [List.length_zipWith, List.length_take, List.length_take,
      leftAcceptable.length_eq, rightAcceptable.length_eq, Nat.min_self]
  refine exists_scalarSum _ (List.ne_nil_of_length_pos (by omega))
    (termCount.trans_le (Nat.min_le_right _ _)) fun term member => ?_
  rw [← List.map_uncurry_zip_eq_zipWith] at member
  obtain ⟨⟨x, y⟩, paired, rfl⟩ := List.mem_map.mp member
  obtain ⟨leftMember, rightMember⟩ := List.of_mem_zip paired
  exact (exists_term positive machine leftAcceptable rightAcceptable
    (List.mem_of_mem_take leftMember) (List.mem_of_mem_take rightMember)).1

theorem distance_magnitude (positive : 1 ≤ dimension)
    (machine : dimension < UInt64.size)
    (leftAcceptable : Acceptable dimension left)
    (rightAcceptable : Acceptable dimension right) :
    ∃ number, (distance left right).Magnitude number := by
  have leftLength := leftAcceptable.length_eq
  have rightLength := rightAcceptable.length_eq
  obtain ⟨sum, magnitude, small⟩ := leftAcceptable.squaredDistance_magnitude
    positive machine rightAcceptable positive
  rw [List.take_of_length_le leftLength.le,
    List.take_of_length_le rightLength.le] at magnitude
  obtain ⟨root, _, rootMagnitude⟩ := magnitude_sqrt magnitude small
  refine ⟨root, ?_⟩
  unfold distance
  rw [if_pos (leftLength.trans rightLength.symm)]
  exact rootMagnitude

theorem finiteDistance_eq (positive : 1 ≤ dimension)
    (machine : dimension < UInt64.size)
    (leftAcceptable : Acceptable dimension left)
    (rightAcceptable : Acceptable dimension right) :
    finiteDistance left right = .ok (distance left right) := by
  obtain ⟨number, magnitude⟩ := leftAcceptable.distance_magnitude positive
    machine rightAcceptable
  unfold finiteDistance
  dsimp only
  rw [if_pos magnitude.stands.isFinite]

theorem distance_comm (positive : 1 ≤ dimension)
    (machine : dimension < UInt64.size)
    (leftAcceptable : Acceptable dimension left)
    (rightAcceptable : Acceptable dimension right) :
    distance left right = distance right left := by
  have terms : List.zipWith (fun x y => (x - y) * (x - y)) left right =
      List.zipWith (fun x y => (x - y) * (x - y)) right left := by
    rw [List.zipWith_comm, ← List.map_uncurry_zip_eq_zipWith,
      ← List.map_uncurry_zip_eq_zipWith]
    refine List.map_congr_left fun pair paired => ?_
    obtain ⟨rightMember, leftMember⟩ := List.of_mem_zip paired
    exact (exists_term positive machine leftAcceptable rightAcceptable
      leftMember rightMember).2
  unfold distance squaredDistance
  rw [terms, leftAcceptable.length_eq, rightAcceptable.length_eq]

end Acceptable

/-- Vectors whose components pass the check have finite partial sums of
squares, over their first components from none to all, and a finite distance.
The dimension is a machine word. -/
theorem squaredDistance_isFinite (dimension : UInt64)
    (positive : 1 ≤ dimension.toNat) {left right : Coordinates}
    (leftLength : left.length = dimension.toNat)
    (rightLength : right.length = dimension.toNat)
    (leftInRange : requireInRange left = .ok ())
    (rightInRange : requireInRange right = .ok ()) :
    (∀ count, (squaredDistance (left.take count)
        (right.take count)).isFinite = true) ∧
      (distance left right).isFinite = true ∧
      finiteDistance left right = .ok (distance left right) := by
  have machine : dimension.toNat < UInt64.size := dimension.toNat_lt_size
  have leftAcceptable := Acceptable.of_requireInRange leftLength leftInRange
  have rightAcceptable :=
    Acceptable.of_requireInRange rightLength rightInRange
  obtain ⟨_, magnitude⟩ := leftAcceptable.distance_magnitude positive machine
    rightAcceptable
  refine ⟨fun count => ?_, magnitude.stands.isFinite,
    leftAcceptable.finiteDistance_eq positive machine rightAcceptable⟩
  cases count with
  | zero =>
      rw [List.take_zero, List.take_zero]
      decide
  | succ count =>
      obtain ⟨_, magnitude, _⟩ := leftAcceptable.squaredDistance_magnitude
        positive machine rightAcceptable (Nat.le_add_left 1 count)
      exact magnitude.stands.isFinite

/-- Opposite corners of the accepted vectors of dimension 64. -/
theorem corners_isFinite :
    let upper := List.replicate 64 (Scalar.ofBits 0x5d3504f3)
    let lower := List.replicate 64 (Scalar.ofBits 0xdd3504f3)
    greatestComponent 64 = .ofBits 0x5d3504f3 ∧
      1 ≤ (64 : UInt64).toNat ∧ upper.length = (64 : UInt64).toNat ∧
      lower.length = (64 : UInt64).toNat ∧
      requireInRange upper = .ok () ∧ requireInRange lower = .ok () ∧
      (∀ count, (squaredDistance (upper.take count)
        (lower.take count)).isFinite = true) ∧
      (distance upper lower).isFinite = true ∧
      finiteDistance upper lower = .ok (distance upper lower) := by
  have upperInRange : requireInRange
      (List.replicate 64 (Scalar.ofBits 0x5d3504f3)) = .ok () := by
    decide +kernel
  have lowerInRange : requireInRange
      (List.replicate 64 (Scalar.ofBits 0xdd3504f3)) = .ok () := by
    decide +kernel
  exact ⟨by decide +kernel, by decide, rfl, rfl, upperInRange, lowerInRange,
    squaredDistance_isFinite 64 (by decide) rfl rfl upperInRange lowerInRange⟩

end SmallWorld
