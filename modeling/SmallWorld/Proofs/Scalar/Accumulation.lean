import SmallWorld.Proofs.Scalar.Finite

/-!
# Rounded sums of many small numbers

A sum is accumulated from the left, and each partial sum is rounded.  With
`count` terms that are at most `2 ^ 127 * (1 + 2 ^ (-19)) / count` no partial
sum comes near the greatest scalar, although the rounding errors of many
terms add up to more than the sum itself may leave room for.

Three arguments cover all counts.  For few terms the error of each addition is
small against the greatest scalar.  For more of them it is small against the
term as long as the partial sum is below a million terms, and never greater
than the term afterwards.  For very many terms the sum stagnates: a partial
sum of `2 ^ 127` is too large for a term to change it.
-/

namespace SmallWorld.Scalar

/-- The partial sums of numbers up to a bound, each rounded. -/
inductive Accumulates (bound : ℝ) : ℕ → ℝ → Prop
  | none : Accumulates bound 0 0
  | step {count : ℕ} {partialSum term rounded : ℝ} :
      Accumulates bound count partialSum →
      0 ≤ term → term ≤ bound →
      IsNearest (partialSum + term) rounded →
      Accumulates bound (count + 1) rounded

namespace Accumulates

variable {bound partialSum : ℝ} {count : ℕ}

theorem nonneg (accumulates : Accumulates bound count partialSum) :
    0 ≤ partialSum := by
  induction accumulates with
  | none => exact le_refl 0
  | step _ positive _ nearest inductionHypothesis =>
      exact nearest.nonneg (add_nonneg inductionHypothesis positive)

theorem representable (accumulates : Accumulates bound count partialSum) :
    Representable partialSum := by
  cases accumulates with
  | none => exact representable_zero
  | step _ _ _ nearest => exact nearest.representable

/-- As long as the sum of `limit` terms with their errors stays below a power
of two, each term is rounded by less than one step below that power. -/
theorem le_mul_add_step (exponent : ℤ) (limit : ℕ)
    (least : -149 ≤ exponent)
    (room : limit * (bound + 2 ^ exponent) ≤ 2 ^ (exponent + 24))
    (accumulates : Accumulates bound count partialSum)
    (few : count ≤ limit) (boundNonneg : 0 ≤ bound) :
    partialSum ≤ count * (bound + 2 ^ exponent) := by
  have step : (0 : ℝ) < 2 ^ exponent := by positivity
  induction accumulates with
  | none => simp
  | @step count partialSum term rounded earlier positive small nearest
      inductionHypothesis =>
      have partialLe := inductionHypothesis (by omega)
      have counted : ((count : ℝ) + 1) * (bound + 2 ^ exponent) ≤
          limit * (bound + 2 ^ exponent) := by
        refine mul_le_mul_of_nonneg_right ?_ (by positivity)
        exact_mod_cast few
      have close := nearest.abs_sub_lt least
        (add_nonneg earlier.nonneg positive) (by linarith)
      have upper := (abs_lt.mp close).2
      push_cast
      linarith

/-- Later terms are rounded by no more than themselves. -/
theorem le_add_two_mul {limit : ℕ} {start : ℝ}
    (begun : ∀ {partialSum}, Accumulates bound limit partialSum →
      partialSum ≤ start)
    (accumulates : Accumulates bound count partialSum)
    (many : limit ≤ count) :
    partialSum ≤ start + 2 * (count - limit) * bound := by
  induction accumulates with
  | none =>
      obtain rfl : limit = 0 := by omega
      have := begun .none
      simpa using this
  | @step count partialSum term rounded earlier positive small nearest
      inductionHypothesis =>
      rcases Nat.lt_or_eq_of_le many with later | now
      · have partialLe := inductionHypothesis (by omega)
        have added := nearest.add_le earlier.representable positive
        push_cast
        linarith
      · subst now
        have := begun (.step earlier positive small nearest)
        simpa using this

/-- A sum stagnates at a power of two that is large against its terms. -/
theorem le_two_zpow (exponent : ℤ) (least : -149 ≤ exponent)
    (tiny : 2 * bound < 2 ^ (exponent - 23))
    (accumulates : Accumulates bound count partialSum) :
    partialSum ≤ 2 ^ exponent := by
  induction accumulates with
  | none => positivity
  | step _ _ small nearest inductionHypothesis =>
      exact nearest.le_two_zpow least inductionHypothesis (by linarith)

noncomputable def termBound (total : ℕ) : ℝ :=
  (2 ^ 127 + 2 ^ 108 : ℕ) / total

theorem termBound_eq (total : ℕ) :
    termBound total = 2 ^ (127 : ℤ) * (1 + 2 ^ (-19 : ℤ)) / total := by
  norm_num [termBound]

private theorem mul_termBound {total : ℕ} (positive : (0 : ℝ) < total) :
    total * termBound total = 2 ^ (127 : ℤ) * (1 + 2 ^ (-19 : ℤ)) := by
  rw [termBound_eq]
  exact mul_div_cancel₀ _ positive.ne'

private theorem termBound_pos {total : ℕ} (positive : (0 : ℝ) < total) :
    0 < termBound total := by
  rw [termBound_eq]
  positivity

private theorem add_le_of_few {total : ℕ} (positive : 1 ≤ total)
    (few : total ≤ 2 ^ 20)
    (accumulates : Accumulates (termBound total) count partialSum)
    (counted : count < total) :
    partialSum + termBound total ≤ greatestNumber := by
  have totalPos : (0 : ℝ) < total := by exact_mod_cast positive
  have fewReal : (total : ℝ) ≤ 2 ^ 20 := by exact_mod_cast few
  have countedReal : (count : ℝ) + 1 ≤ total := by exact_mod_cast counted
  have product := mul_termBound totalPos
  have termPos := termBound_pos totalPos
  have room : total * (termBound total + 2 ^ (104 : ℤ)) ≤
      2 ^ (128 : ℤ) - 2 ^ (104 : ℤ) := by
    rw [mul_add, product]
    calc (2 : ℝ) ^ (127 : ℤ) * (1 + 2 ^ (-19 : ℤ)) + total * 2 ^ (104 : ℤ)
        ≤ 2 ^ (127 : ℤ) * (1 + 2 ^ (-19 : ℤ)) + 2 ^ 20 * 2 ^ (104 : ℤ) :=
          add_le_add_right
            (mul_le_mul_of_nonneg_right fewReal (by positivity)) _
      _ ≤ 2 ^ (128 : ℤ) - 2 ^ (104 : ℤ) := by norm_num
  have sum := accumulates.le_mul_add_step 104 total
    (by norm_num) (room.trans (by norm_num)) counted.le termPos.le
  calc partialSum + termBound total
      ≤ count * (termBound total + 2 ^ (104 : ℤ)) +
          (termBound total + 2 ^ (104 : ℤ)) :=
        add_le_add sum (le_add_of_nonneg_right (by positivity))
    _ = (count + 1) * (termBound total + 2 ^ (104 : ℤ)) := by ring
    _ ≤ total * (termBound total + 2 ^ (104 : ℤ)) :=
        mul_le_mul_of_nonneg_right countedReal
          (add_nonneg termPos.le (zpow_nonneg (by norm_num) _))
    _ ≤ greatestNumber := room

private theorem add_le_of_many {total : ℕ} (many : 2 ^ 20 < total)
    (moderate : total ≤ 2 ^ 26)
    (accumulates : Accumulates (termBound total) count partialSum)
    (counted : count < total) :
    partialSum + termBound total ≤ greatestNumber := by
  have totalPos : (0 : ℝ) < total := by
    exact_mod_cast (Nat.two_pow_pos 20).trans many
  have moderateReal : (total : ℝ) ≤ 2 ^ 26 := by exact_mod_cast moderate
  have countedReal : (count : ℝ) + 1 ≤ total := by exact_mod_cast counted
  have product := mul_termBound totalPos
  have termPos := termBound_pos totalPos
  have termLarge : (2 : ℝ) ^ (101 : ℤ) ≤ termBound total := by
    rw [termBound_eq]
    rw [le_div_iff₀ totalPos]
    calc (2 : ℝ) ^ (101 : ℤ) * total
        ≤ 2 ^ (101 : ℤ) * 2 ^ 26 :=
          mul_le_mul_of_nonneg_left moderateReal (by positivity)
      _ ≤ 2 ^ (127 : ℤ) * (1 + 2 ^ (-19 : ℤ)) := by norm_num
  obtain ⟨exponent, lower, upper⟩ :=
    exists_mem_Ico_zpow
      (show 0 < 2 ^ 20 * termBound total from mul_pos (by norm_num) termPos)
      (by norm_num : (1 : ℝ) < 2)
  have least : (101 : ℤ) < exponent + 1 := by
    refine (zpow_lt_zpow_iff_right₀ (by norm_num : (1 : ℝ) < 2)).mp ?_
    linarith
  have stepLe : (2 : ℝ) ^ (exponent - 23) ≤ termBound total / 8 := by
    rw [zpow_sub₀ (by norm_num)]
    norm_num at lower ⊢
    linarith
  have early : ∀ {count : ℕ} {partialSum : ℝ}, count ≤ 2 ^ 19 →
      Accumulates (termBound total) count partialSum →
        partialSum ≤ count * (9 / 8 * termBound total) := by
    intro count partialSum few accumulates
    have room : ((2 ^ 19 : ℕ) : ℝ) *
        (termBound total + 2 ^ (exponent - 23)) ≤
          2 ^ (exponent - 23 + 24) := by
      rw [show exponent - 23 + 24 = exponent + 1 by ring]
      push_cast
      linarith
    have sum := accumulates.le_mul_add_step (exponent - 23) (2 ^ 19)
      (by omega) room few termPos.le
    refine sum.trans (mul_le_mul_of_nonneg_left ?_ (Nat.cast_nonneg _))
    linarith
  have grown : ((count : ℝ) + 1) * termBound total ≤
      2 ^ (127 : ℤ) * (1 + 2 ^ (-19 : ℤ)) := by
    rw [← product]
    exact mul_le_mul_of_nonneg_right countedReal termPos.le
  unfold greatestNumber
  rcases le_total (2 ^ 19) count with late | few
  · have sum := accumulates.le_add_two_mul (early (le_refl _)) late
    push_cast at sum
    norm_num at sum grown termLarge ⊢
    linarith
  · have sum := early few accumulates
    have fewReal : (count : ℝ) ≤ 2 ^ 19 := by exact_mod_cast few
    have manyReal : (2 : ℝ) ^ 20 ≤ total := by exact_mod_cast many.le
    have first : (count : ℝ) * (9 / 8 * termBound total) ≤
        2 ^ 19 * (9 / 8 * termBound total) :=
      mul_le_mul_of_nonneg_right fewReal
        (mul_nonneg (by norm_num) termPos.le)
    have whole : 2 ^ 20 * termBound total ≤ total * termBound total :=
      mul_le_mul_of_nonneg_right manyReal termPos.le
    rw [product] at whole
    norm_num at sum first whole ⊢
    linarith

private theorem add_le_of_huge {total : ℕ} (huge : 2 ^ 26 < total)
    (accumulates : Accumulates (termBound total) count partialSum) :
    partialSum + termBound total ≤ greatestNumber := by
  have hugeReal : (2 : ℝ) ^ 26 ≤ total := by exact_mod_cast huge.le
  have tiny : termBound total ≤ 2 ^ (102 : ℤ) := by
    rw [termBound_eq]
    rw [div_le_iff₀ (lt_of_lt_of_le (by positivity) hugeReal)]
    calc (2 : ℝ) ^ (127 : ℤ) * (1 + 2 ^ (-19 : ℤ))
        ≤ 2 ^ (102 : ℤ) * 2 ^ 26 := by norm_num
      _ ≤ 2 ^ (102 : ℤ) * total :=
          mul_le_mul_of_nonneg_left hugeReal (by positivity)
  have sum := accumulates.le_two_zpow 127 (by norm_num)
    (by norm_num at tiny ⊢; linarith)
  unfold greatestNumber
  norm_num at sum tiny ⊢
  linarith

/-- With terms that are small against their number there is room for the next
one up to the greatest scalar. -/
theorem add_le_greatestNumber {total : ℕ}
    (accumulates : Accumulates (termBound total) count partialSum)
    (counted : count < total) :
    partialSum + termBound total ≤ greatestNumber := by
  rcases le_or_gt total (2 ^ 20) with few | many
  · exact add_le_of_few (by omega) few accumulates counted
  · rcases le_or_gt total (2 ^ 26) with moderate | huge
    · exact add_le_of_many many moderate accumulates counted
    · exact add_le_of_huge huge accumulates

theorem le_greatestNumber {total : ℕ}
    (accumulates : Accumulates (termBound total) count partialSum)
    (counted : count ≤ total) : partialSum ≤ greatestNumber := by
  cases accumulates with
  | none => norm_num [greatestNumber]
  | step earlier positive small nearest =>
      have room := earlier.add_le_greatestNumber (by omega)
      exact nearest.le_of_le representable_greatestNumber (by linarith)

end Accumulates

end SmallWorld.Scalar
