import SmallWorld.Cloud
import SmallWorld.Proofs.Journal
import SmallWorld.Proofs.Scalar.Sign

/-!
# Finite distances

Where two vectors have a distance at all, it is a magnitude: nothing needs to
be known about their components.  So the finite distances of any vectors to
one of them compare as their ranks do (`finiteDistance_compare`).  Only the
distance of vectors without components has a negative sign, and there is only
one such distance.
-/

namespace SmallWorld

open Scalar

theorem unsigned_foldl_sum {start : Scalar} {terms : List Scalar}
    (startUnsigned : Unsigned start.unpacked)
    (termsUnsigned : ∀ term ∈ terms, Unsigned term.unpacked) :
    Unsigned (terms.foldl (· + ·) start).unpacked := by
  induction terms generalizing start with
  | nil => exact startUnsigned
  | cons term rest inductionHypothesis =>
      exact inductionHypothesis
        (unsigned_sum startUnsigned (termsUnsigned term List.mem_cons_self))
        fun later member => termsUnsigned later (List.mem_cons_of_mem _ member)

theorem unsigned_scalarSum {terms : List Scalar} (nonempty : terms ≠ [])
    (termsUnsigned : ∀ term ∈ terms, Unsigned term.unpacked) :
    Unsigned (scalarSum terms).unpacked := by
  cases terms with
  | nil => exact (nonempty rfl).elim
  | cons term rest =>
      unfold scalarSum
      rw [List.foldl_cons]
      exact unsigned_foldl_sum
        (unsigned_negativeZero_sum (termsUnsigned term List.mem_cons_self))
        fun later member => termsUnsigned later (List.mem_cons_of_mem _ member)

theorem unsigned_squaredDistance {left right : Coordinates}
    (leftNonempty : left ≠ []) (rightNonempty : right ≠ []) :
    Unsigned (squaredDistance left right).unpacked := by
  refine unsigned_scalarSum ?_ fun term member => ?_
  · simp [leftNonempty, rightNonempty]
  · rw [← List.map_uncurry_zip_eq_zipWith] at member
    obtain ⟨pair, _, rfl⟩ := List.mem_map.mp member
    exact unsigned_square _

theorem finiteDistance_eq_ok {left right : Coordinates} {value : Scalar}
    (measured : finiteDistance left right = .ok value) :
    left.length = right.length ∧ value = (squaredDistance left right).sqrt ∧
      value.isFinite = true := by
  unfold finiteDistance distance at measured
  dsimp only at measured
  by_cases same : left.length = right.length
  · rw [if_pos same] at measured
    split at measured
    · next finite =>
        cases measured
        exact ⟨same, rfl, finite⟩
    · cases measured
  · rw [if_neg same, if_neg (by decide +kernel)] at measured
    cases measured

/-- A distance between points that is returned is a number. -/
theorem Cloud.isNaN_of_distanceBetween {cloud : Cloud}
    {first second : PointId} {value : Scalar}
    (measured : cloud.distanceBetween first second = .ok value) :
    value.isNaN = false := by
  obtain ⟨_, _, rest⟩ := bind_eq_ok_iff.mp measured
  obtain ⟨_, _, finite⟩ := bind_eq_ok_iff.mp rest
  exact isNaN_of_isFinite (finiteDistance_eq_ok finite).2.2

/-- A finite distance of vectors with components is a magnitude. -/
theorem finiteDistance_magnitude {left right : Coordinates} {value : Scalar}
    (nonempty : right ≠ [])
    (measured : finiteDistance left right = .ok value) :
    ∃ number, value.Magnitude number := by
  obtain ⟨sameLength, rfl, finite⟩ := finiteDistance_eq_ok measured
  have leftNonempty : left ≠ [] := by
    rintro rfl
    exact nonempty (List.length_eq_zero_iff.mp sameLength.symm)
  exact exists_magnitude
    (unsigned_root (unsigned_squaredDistance leftNonempty nonempty)) finite

theorem finiteDistance_nil {left : Coordinates} {value : Scalar}
    (measured : finiteDistance left [] = .ok value) :
    value = negativeZero := by
  obtain ⟨_, rfl, _⟩ := finiteDistance_eq_ok measured
  have empty : squaredDistance left [] = negativeZero := by
    unfold squaredDistance
    rw [List.zipWith_nil_right]
    rfl
  rw [empty]
  decide +kernel

/-- Finite distances to one vector compare as their ranks do. -/
theorem finiteDistance_compare {first second query : Coordinates}
    {near far : Scalar} (firstMeasured : finiteDistance first query = .ok near)
    (secondMeasured : finiteDistance second query = .ok far) :
    (near < far ↔ near.rank < far.rank) ∧
      (near ≤ far ↔ near.rank ≤ far.rank) := by
  by_cases empty : query = []
  · subst empty
    rw [finiteDistance_nil firstMeasured, finiteDistance_nil secondMeasured]
    decide +kernel
  · obtain ⟨_, magnitude⟩ := finiteDistance_magnitude empty firstMeasured
    obtain ⟨_, magnitude'⟩ := finiteDistance_magnitude empty secondMeasured
    exact ⟨magnitude.lt_iff_rank magnitude', magnitude.le_iff_rank magnitude'⟩

end SmallWorld
