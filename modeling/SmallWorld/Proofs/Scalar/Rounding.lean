import Mathlib
import SmallWorld.Scalar.Order

/-!
# Rounding to the nearest scalar

An operation on scalars takes the exact result and rounds it to a nearest
representable number.  `IsNearest` says so without reference to mantissas, and
all bounds on rounded results follow from it: rounding is monotone towards
representable numbers (`IsNearest.le_of_le`), moves a number by less than one
step of its magnitude (`IsNearest.abs_sub_lt`), and adding a small number to
a power of two gives that power (`IsNearest.le_two_zpow`).

The largest exponent plays no role here.  It decides only whether a rounded
number is finite as a scalar.

`Measures` and `Locates` say which numbers the unpacked forms stand for.
-/

namespace SmallWorld.Scalar

open Float.Model UnpackedFloat

/-- A mantissa of 24 bits with an exponent that is not below the least one. -/
def Representable (number : ℝ) : Prop :=
  ∃ mantissa exponent : ℤ,
    |mantissa| ≤ 2 ^ 24 ∧ -149 ≤ exponent ∧
      number = mantissa * (2 : ℝ) ^ exponent

noncomputable def greatestNumber : ℝ := 2 ^ (128 : ℤ) - 2 ^ (104 : ℤ)

/-- No representable number is nearer to the exact one than the rounded
one. -/
structure IsNearest (exact rounded : ℝ) : Prop where
  representable : Representable rounded
  minimal : ∀ other, Representable other →
    |rounded - exact| ≤ |other - exact|

/-- An unpacked number of the given sign and magnitude, with as long a
mantissa as its exponent calls for. -/
def Measures (sign : Sign) (magnitude : ℝ) : UnpackedFloat → Prop
  | .zero stored => stored = sign ∧ magnitude = 0
  | .finite stored mantissa exponent _ =>
      stored = sign ∧ mantissa < 0x1000000 ∧ -149 ≤ exponent ∧
        (0x800000 ≤ mantissa ∨ exponent = -149) ∧
        magnitude = mantissa * (2 : ℝ) ^ exponent
  | _ => False

/-- What a mantissa with its two residual bits knows about an exact
number. -/
def Locates (extended : ExtendedMantissa) (exact : ℝ) : Prop :=
  match extended with
  | ⟨mantissa, false, false⟩ => exact = mantissa
  | ⟨mantissa, false, true⟩ => mantissa < exact ∧ exact < mantissa + 1 / 2
  | ⟨mantissa, true, false⟩ => exact = mantissa + 1 / 2
  | ⟨mantissa, true, true⟩ => mantissa + 1 / 2 < exact ∧ exact < mantissa + 1

private theorem two_zpow_pos (exponent : ℤ) : (0 : ℝ) < 2 ^ exponent :=
  zpow_pos (by norm_num) exponent

theorem representable_two_zpow {exponent : ℤ} (bound : -149 ≤ exponent) :
    Representable ((2 : ℝ) ^ exponent) :=
  ⟨1, exponent, by norm_num, bound, by norm_num⟩

theorem representable_zero : Representable 0 :=
  ⟨0, 0, by norm_num, by norm_num, by norm_num⟩

theorem representable_greatestNumber : Representable greatestNumber := by
  refine ⟨2 ^ 24 - 1, 104, by norm_num, by norm_num, ?_⟩
  rw [greatestNumber, show (128 : ℤ) = 24 + 104 by norm_num,
    zpow_add₀ (by norm_num)]
  norm_num

theorem Representable.neg {number : ℝ} (stored : Representable number) :
    Representable (-number) := by
  obtain ⟨mantissa, exponent, bound, least, equality⟩ := stored
  exact ⟨-mantissa, exponent, by simpa using bound, least, by
    rw [equality]; push_cast; ring⟩

theorem Representable.double {number : ℝ} (stored : Representable number) :
    Representable (2 * number) := by
  obtain ⟨mantissa, exponent, bound, least, equality⟩ := stored
  refine ⟨mantissa, exponent + 1, bound, by omega, ?_⟩
  rw [equality, zpow_add₀ (by norm_num), zpow_one]
  ring

namespace IsNearest

variable {exact rounded bound : ℝ}

theorem le_of_le (nearest : IsNearest exact rounded)
    (stored : Representable bound) (below : exact ≤ bound) :
    rounded ≤ bound := by
  have closest := nearest.minimal bound stored
  rw [abs_of_nonneg (sub_nonneg.mpr below)] at closest
  have upper := (abs_le.mp closest).2
  linarith

theorem le_of_ge (nearest : IsNearest exact rounded)
    (stored : Representable bound) (above : bound ≤ exact) :
    bound ≤ rounded := by
  have closest := nearest.minimal bound stored
  rw [abs_of_nonpos (sub_nonpos.mpr above)] at closest
  have lower := (abs_le.mp closest).1
  linarith

theorem neg (nearest : IsNearest exact rounded) :
    IsNearest (-exact) (-rounded) := by
  refine ⟨nearest.representable.neg, fun other stored => ?_⟩
  have closest := nearest.minimal (-other) stored.neg
  rw [show -rounded - -exact = -(rounded - exact) by ring, abs_neg]
  rwa [show -other - exact = -(other - -exact) by ring, abs_neg] at closest

theorem nonneg (nearest : IsNearest exact rounded) (positive : 0 ≤ exact) :
    0 ≤ rounded :=
  nearest.le_of_ge representable_zero positive

/-- The sum of a representable number and another one is rounded by at most
the other one. -/
theorem add_le (nearest : IsNearest (bound + exact) rounded)
    (stored : Representable bound) (positive : 0 ≤ exact) :
    rounded ≤ bound + 2 * exact := by
  have closest := nearest.minimal bound stored
  rw [show bound - (bound + exact) = -exact by ring, abs_neg,
    abs_of_nonneg positive] at closest
  have upper := (abs_le.mp closest).2
  linarith

/-- Below a power of two a number is rounded by less than the step between
the representable numbers there. -/
theorem abs_sub_lt (nearest : IsNearest exact rounded)
    {exponent : ℤ} (least : -149 ≤ exponent) (positive : 0 ≤ exact)
    (below : exact < 2 ^ (exponent + 24)) :
    |rounded - exact| < 2 ^ exponent := by
  have step := two_zpow_pos exponent
  have quotient : 0 ≤ exact / 2 ^ exponent := div_nonneg positive step.le
  have split : (2 : ℝ) ^ (exponent + 24) = 2 ^ 24 * 2 ^ exponent := by
    rw [zpow_add₀ (by norm_num)]
    norm_num
    ring
  have floorLe := Int.floor_le (exact / 2 ^ exponent)
  have ltFloor := Int.lt_floor_add_one (exact / 2 ^ exponent)
  have floorNonneg : 0 ≤ ⌊exact / 2 ^ exponent⌋ := Int.floor_nonneg.mpr quotient
  have floorSmall : ⌊exact / 2 ^ exponent⌋ < 2 ^ 24 := by
    rw [Int.floor_lt]
    push_cast
    rw [div_lt_iff₀ step]
    rw [split] at below
    linarith
  have closest := nearest.minimal (⌊exact / 2 ^ exponent⌋ * 2 ^ exponent)
    ⟨_, exponent, by rw [abs_of_nonneg floorNonneg]; omega, least, rfl⟩
  rw [le_div_iff₀ step] at floorLe
  rw [div_lt_iff₀ step] at ltFloor
  rw [abs_of_nonpos (sub_nonpos.mpr floorLe)] at closest
  linarith

/-- A number that is not too small is rounded by less than the
`2 ^ 23`-rd part of it. -/
theorem abs_sub_le_mul (nearest : IsNearest exact rounded)
    (large : 2 ^ (-126 : ℤ) ≤ exact) :
    |rounded - exact| ≤ exact * 2 ^ (-23 : ℤ) := by
  have positive : 0 < exact := lt_of_lt_of_le (two_zpow_pos _) large
  obtain ⟨exponent, lower, upper⟩ :=
    exists_mem_Ico_zpow positive (by norm_num : (1 : ℝ) < 2)
  have least : -149 ≤ exponent - 23 := by
    have ordered : (2 : ℝ) ^ (-126 : ℤ) < 2 ^ (exponent + 1) :=
      lt_of_le_of_lt large upper
    have := (zpow_lt_zpow_iff_right₀ (by norm_num : (1 : ℝ) < 2)).mp ordered
    omega
  have distance := nearest.abs_sub_lt least positive.le
    (by rwa [show exponent - 23 + 24 = exponent + 1 by ring])
  rw [sub_eq_add_neg exponent, zpow_add₀ (by norm_num)] at distance
  have scaled := mul_le_mul_of_nonneg_right lower (two_zpow_pos (-23)).le
  linarith

/-- The representable numbers above a power of two keep a distance from
it. -/
private theorem add_step_le_of_representable {exponent : ℤ} {number : ℝ}
    (stored : Representable number) (above : 2 ^ exponent < number) :
    (2 : ℝ) ^ exponent + 2 ^ (exponent - 23) ≤ number := by
  obtain ⟨mantissa, scale, bound, _, rfl⟩ := stored
  have scalePos := two_zpow_pos scale
  have mantissaLe : (mantissa : ℝ) ≤ 2 ^ 24 := by
    have := (abs_le.mp bound).2
    exact_mod_cast this
  have scaleLarge : exponent < scale + 24 := by
    have chain : (2 : ℝ) ^ exponent < 2 ^ (scale + 24) := by
      rw [zpow_add₀ (by norm_num)]
      calc (2 : ℝ) ^ exponent < mantissa * 2 ^ scale := above
        _ ≤ 2 ^ 24 * 2 ^ scale :=
            mul_le_mul_of_nonneg_right mantissaLe scalePos.le
        _ = 2 ^ scale * 2 ^ (24 : ℤ) := by norm_num; ring
    exact (zpow_lt_zpow_iff_right₀ (by norm_num)).mp chain
  -- Both numbers are multiples of the step.
  obtain ⟨fine, hfine⟩ : ∃ fine : ℕ, scale - (exponent - 23) = fine :=
    ⟨(scale - (exponent - 23)).toNat, by omega⟩
  have split : (2 : ℝ) ^ scale = 2 ^ fine * 2 ^ (exponent - 23) := by
    rw [← zpow_natCast, ← hfine, ← zpow_add₀ (by norm_num)]
    ring_nf
  have power : (2 : ℝ) ^ exponent = 2 ^ 23 * 2 ^ (exponent - 23) := by
    rw [← zpow_natCast, ← zpow_add₀ (by norm_num)]
    norm_num
  have stepPos := two_zpow_pos (exponent - 23)
  rw [power, split, ← mul_assoc] at above
  have counted : (2 : ℝ) ^ 23 < mantissa * 2 ^ fine :=
    lt_of_mul_lt_mul_right above stepPos.le
  have counted' : (2 : ℤ) ^ 23 + 1 ≤ mantissa * 2 ^ fine := by
    have : (2 : ℤ) ^ 23 < mantissa * 2 ^ fine := by exact_mod_cast counted
    omega
  have counted'' : (2 : ℝ) ^ 23 + 1 ≤ mantissa * 2 ^ fine := by
    exact_mod_cast counted'
  rw [power, split, ← mul_assoc]
  have scaled := mul_le_mul_of_nonneg_right counted'' stepPos.le
  linarith

/-- Adding a number below half a step to at most a power of two does not lead
beyond that power. -/
theorem le_two_zpow {exponent : ℤ} {small : ℝ}
    (nearest : IsNearest (bound + small) rounded)
    (least : -149 ≤ exponent) (below : bound ≤ 2 ^ exponent)
    (tiny : 2 * small < 2 ^ (exponent - 23)) :
    rounded ≤ 2 ^ exponent := by
  have power := representable_two_zpow least
  by_cases inside : bound + small ≤ 2 ^ exponent
  · exact nearest.le_of_le power inside
  · by_contra above
    have far := add_step_le_of_representable nearest.representable
      (lt_of_not_ge above)
    have closest := nearest.minimal _ power
    have outside := lt_of_not_ge inside
    rw [abs_of_neg (sub_neg.mpr outside)] at closest
    have upper := (abs_le.mp closest).2
    linarith

/-- An integer number of steps within half a step of the exact number is
nearest, if the exact number is so large that its mantissa is full. -/
theorem of_abs_sub_le_half {scaled : ℝ} {count : ℕ} {exponent : ℤ}
    (half : |(count : ℝ) - scaled| ≤ 1 / 2) (small : count ≤ 2 ^ 24)
    (least : -149 ≤ exponent)
    (full : 2 ^ 23 ≤ scaled ∨ exponent = -149) :
    IsNearest (scaled * 2 ^ exponent) (count * 2 ^ exponent) := by
  have step := two_zpow_pos exponent
  have onGrid : ∀ other : ℤ,
      |(count : ℝ) * 2 ^ exponent - scaled * 2 ^ exponent| ≤
        |(other : ℝ) * 2 ^ exponent - scaled * 2 ^ exponent| := by
    intro other
    rw [← sub_mul, ← sub_mul, abs_mul, abs_mul]
    refine mul_le_mul_of_nonneg_right ?_ (abs_nonneg _)
    by_cases equal : other = count
    · rw [equal, Int.cast_natCast]
    · have apart : 1 ≤ |other - (count : ℤ)| :=
        Int.one_le_abs (sub_ne_zero.mpr equal)
      have apart' : (1 : ℝ) ≤ |(other : ℝ) - count| := by exact_mod_cast apart
      have triangle := abs_sub_le (other : ℝ) scaled count
      rw [abs_sub_comm scaled] at triangle
      linarith
  refine ⟨⟨count, exponent, ?_, least, by norm_num⟩, fun other stored => ?_⟩
  · rw [Nat.abs_cast]
    exact_mod_cast small
  · obtain ⟨mantissa, scale, bound, scaleLeast, rfl⟩ := stored
    by_cases coarse : exponent ≤ scale
    · obtain ⟨fine, hfine⟩ : ∃ fine : ℕ, scale - exponent = fine :=
        ⟨(scale - exponent).toNat, by omega⟩
      have split : (2 : ℝ) ^ scale = 2 ^ fine * 2 ^ exponent := by
        rw [← zpow_natCast, ← hfine, ← zpow_add₀ (by norm_num)]
        ring_nf
      have multiple := onGrid (mantissa * 2 ^ fine)
      rw [split, ← mul_assoc]
      exact_mod_cast multiple
    · -- A finer number lies below the least number with a full mantissa.
      have large : (2 : ℝ) ^ 23 ≤ scaled := by
        rcases full with large | equal
        · exact large
        · omega
      have mantissaLe : (mantissa : ℝ) ≤ 2 ^ 24 := by
        have := (abs_le.mp bound).2
        exact_mod_cast this
      have below : (mantissa : ℝ) * 2 ^ scale ≤ 2 ^ 23 * 2 ^ exponent := by
        calc (mantissa : ℝ) * 2 ^ scale
            ≤ 2 ^ 24 * 2 ^ scale :=
              mul_le_mul_of_nonneg_right mantissaLe (two_zpow_pos scale).le
          _ = 2 ^ 23 * 2 ^ (scale + 1) := by
              rw [zpow_add₀ (by norm_num)]
              norm_num
              ring
          _ ≤ 2 ^ 23 * 2 ^ exponent := by
              refine mul_le_mul_of_nonneg_left ?_ (by norm_num)
              exact zpow_le_zpow_right₀ (by norm_num) (by omega)
      have reach := mul_le_mul_of_nonneg_right large step.le
      have least := onGrid (2 ^ 23)
      rw [Int.cast_pow, Int.cast_ofNat,
        abs_of_nonpos (sub_nonpos.mpr reach)] at least
      rw [abs_of_nonpos (sub_nonpos.mpr (below.trans reach))]
      linarith

end IsNearest

end SmallWorld.Scalar
