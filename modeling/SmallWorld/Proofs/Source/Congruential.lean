import Mathlib.Dynamics.PeriodicPts.Lemmas
import Mathlib.NumberTheory.Multiplicity
import Mathlib.Tactic
import SmallWorld.Source.Congruential

/-!
# The period of the congruential generator

The step of the generator is an affine map, which never leaves the range of
machine words.  Its increment is odd, and its multiplier leaves the remainder
one when it is divided by four.  Such a map moves an integer by as many
factors of two as the number of its steps has
(`two_pow_dvd_affine_iterate_sub_iff`).  So the states modulo `2 ^ 31` return
after the multiples of `2 ^ 31` steps and after no other number of them,
whatever the seed (`Congruential.ofSeed_period`).
-/

namespace SmallWorld

def affine (multiplier increment state : ℤ) : ℤ :=
  state * multiplier + increment

section Affine

variable {multiplier increment : ℤ}

theorem affine_iterate_sub (multiplier increment start : ℤ) (steps : ℕ) :
    (multiplier - 1) *
        ((affine multiplier increment)^[steps] start - start) =
      (multiplier ^ steps - 1) * ((multiplier - 1) * start + increment) := by
  induction steps with
  | zero => simp
  | succ steps inductionHypothesis =>
      rw [Function.iterate_succ_apply', affine, pow_succ]
      linear_combination multiplier * inductionHypothesis

/-- What an affine map adds in some steps has as many factors of two as their
number. -/
theorem two_pow_dvd_affine_iterate_sub_iff (moves : multiplier ≠ 1)
    (four : 4 ∣ multiplier - 1) (odd : ¬ 2 ∣ increment) (start : ℤ)
    (steps exponent : ℕ) :
    2 ^ exponent ∣ (affine multiplier increment)^[steps] start - start ↔
      2 ^ exponent ∣ steps := by
  have even : (2 : ℤ) ∣ multiplier - 1 := (by decide : (2 : ℤ) ∣ 4).trans four
  have multiplierOdd : ¬ (2 : ℤ) ∣ multiplier := fun divides =>
    absurd ((dvd_sub_right divides).mp even) (by decide)
  have factorOdd : ¬ (2 : ℤ) ∣ (multiplier - 1) * start + increment :=
    fun divides => odd ((dvd_add_right (even.mul_right start)).mp divides)
  have powers : emultiplicity 2 (multiplier ^ steps - 1) =
      emultiplicity 2 (multiplier - 1) + emultiplicity 2 (steps : ℤ) := by
    have := Int.two_pow_sub_pow' (x := multiplier) (y := 1) steps four
      multiplierOdd
    rwa [one_pow] at this
  have counted : emultiplicity 2
        ((affine multiplier increment)^[steps] start - start) =
      emultiplicity 2 (steps : ℤ) := by
    have := congrArg (emultiplicity 2)
      (affine_iterate_sub multiplier increment start steps)
    rw [emultiplicity_mul Int.prime_two, emultiplicity_mul Int.prime_two,
      emultiplicity_eq_zero.mpr factorOdd, add_zero, powers] at this
    refine ENat.add_right_injective_of_ne_top ?_ this
    exact finiteMultiplicity_iff_emultiplicity_ne_top.mp
      (Int.finiteMultiplicity_iff.mpr ⟨by decide, sub_ne_zero.mpr moves⟩)
  rw [pow_dvd_iff_le_emultiplicity, counted, ← pow_dvd_iff_le_emultiplicity]
  exact_mod_cast Iff.rfl

end Affine

namespace Congruential

variable {generator other : Congruential}

def number (generator : Congruential) (position : Nat) : UInt64 :=
  (generator.advance position).next.1

def InRange (generator : Congruential) : Prop :=
  generator.state.toNat < 2 ^ 31

theorem toNat_mod_modulus (word : UInt64) :
    (word % modulus).toNat = word.toNat % 2 ^ 31 := by
  rw [UInt64.toNat_mod]
  rfl

theorem state_ofSeed (seed : UInt64) :
    (ofSeed seed).state.toNat = seed.toNat % 2 ^ 31 :=
  toNat_mod_modulus seed

theorem inRange_ofSeed (seed : UInt64) : (ofSeed seed).InRange := by
  rw [InRange, state_ofSeed]
  exact Nat.mod_lt _ (by decide)

theorem inRange_step (generator : Congruential) : generator.step.InRange := by
  rw [InRange, step, toNat_mod_modulus]
  exact Nat.mod_lt _ (by decide)

/-- The product and the sum of a step are less than the number of words. -/
theorem InRange.fits (inRange : generator.InRange) :
    generator.state.toNat * multiplier.toNat + increment.toNat <
      UInt64.size := by
  unfold InRange at inRange
  change generator.state.toNat * 1103515245 + 12345 < 2 ^ 64
  omega

theorem InRange.state_step (inRange : generator.InRange) :
    generator.step.state.toNat =
      (generator.state.toNat * multiplier.toNat + increment.toNat) %
        2 ^ 31 := by
  have fits := inRange.fits
  have product : generator.state.toNat * multiplier.toNat < 2 ^ 64 :=
    (Nat.le_add_right _ _).trans_lt fits
  rw [step, toNat_mod_modulus, UInt64.toNat_add, UInt64.toNat_mul,
    Nat.mod_eq_of_lt product, Nat.mod_eq_of_lt fits]

theorem advance_succ (steps : Nat) (generator : Congruential) :
    generator.advance (steps + 1) = (generator.advance steps).step := by
  simp only [Congruential.advance, Nat.repeat]

theorem advance_add (first second : Nat) (generator : Congruential) :
    generator.advance (first + second) =
      (generator.advance first).advance second := by
  induction second with
  | zero => simp only [Nat.add_zero, Congruential.advance, Nat.repeat]
  | succ second inductionHypothesis =>
      rw [← Nat.add_assoc, advance_succ, inductionHypothesis, ← advance_succ]

theorem number_eq (generator : Congruential) (position : Nat) :
    generator.number position = (generator.advance (position + 1)).state := by
  rw [advance_succ, number, next]

theorem InRange.advance (inRange : generator.InRange) (steps : Nat) :
    (generator.advance steps).InRange := by
  cases steps with
  | zero =>
      simp only [Congruential.advance, Nat.repeat]
      exact inRange
  | succ steps =>
      rw [advance_succ]
      exact inRange_step _

theorem InRange.advance_modEq (inRange : generator.InRange) (steps : Nat) :
    ((generator.advance steps).state.toNat : ℤ) ≡
      (affine multiplier.toNat increment.toNat)^[steps]
        generator.state.toNat [ZMOD 2 ^ 31] := by
  induction steps with
  | zero =>
      simp only [Congruential.advance, Nat.repeat, Function.iterate_zero, id]
      exact Int.ModEq.refl _
  | succ steps inductionHypothesis =>
      rw [advance_succ, (inRange.advance steps).state_step,
        Function.iterate_succ_apply', affine]
      push_cast
      refine (Int.mod_modEq _ _).trans ?_
      exact (inductionHypothesis.mul_right _).add_right _

theorem InRange.eq_of_modEq (inRange : generator.InRange)
    (otherInRange : other.InRange)
    (congruent : (generator.state.toNat : ℤ) ≡ other.state.toNat
      [ZMOD 2 ^ 31]) : generator = other := by
  have equal : generator.state.toNat = other.state.toNat := by
    have := Int.natCast_modEq_iff (n := 2 ^ 31).mp (by exact_mod_cast congruent)
    exact Nat.ModEq.eq_of_lt_of_lt this inRange otherInRange
  exact congrArg mk (UInt64.toNat_inj.mp equal)

/-- A state returns after the multiples of the modulus. -/
theorem InRange.advance_eq_self_iff (inRange : generator.InRange)
    (steps : Nat) :
    generator.advance steps = generator ↔ 2 ^ 31 ∣ steps := by
  have reached := inRange.advance_modEq steps
  have moves : (multiplier.toNat : ℤ) ≠ 1 := by decide
  have four : (4 : ℤ) ∣ multiplier.toNat - 1 := by decide
  have odd : ¬ (2 : ℤ) ∣ increment.toNat := by decide
  have returns := two_pow_dvd_affine_iterate_sub_iff moves four odd
    generator.state.toNat steps 31
  rw [← returns, ← Int.modEq_iff_dvd]
  constructor
  · intro returned
    rw [returned] at reached
    exact reached
  · intro congruent
    exact (inRange.advance steps).eq_of_modEq inRange
      (reached.trans congruent.symm)

/-- The numbers repeat after the multiples of the modulus. -/
theorem InRange.number_add_eq_iff (inRange : generator.InRange)
    (position steps : Nat) :
    generator.number (position + steps) = generator.number position ↔
      2 ^ 31 ∣ steps := by
  have earlier := inRange.advance (position + 1)
  rw [← earlier.advance_eq_self_iff steps, ← advance_add, number_eq,
    number_eq, Nat.add_right_comm]
  exact ⟨congrArg mk, congrArg state⟩

/-- Numbers that are not as far apart as the modulus differ. -/
theorem InRange.offset_inj (inRange : generator.InRange)
    {start first second : Nat} (ordered : first ≤ second)
    (small : second < 2 ^ 31)
    (equal : generator.number (start + second) =
      generator.number (start + first)) : first = second := by
  obtain ⟨steps, rfl⟩ := Nat.exists_eq_add_of_le ordered
  rw [← Nat.add_assoc, inRange.number_add_eq_iff] at equal
  have := Nat.eq_zero_of_dvd_of_lt equal (by omega)
  omega

/-- Among consecutive numbers, as many as the modulus, each number below it
occurs once. -/
theorem InRange.existsUnique_number (inRange : generator.InRange)
    (start : Nat) {value : Nat} (small : value < 2 ^ 31) :
    ∃! offset, offset < 2 ^ 31 ∧
      (generator.number (start + offset)).toNat = value := by
  have numberSmall : ∀ position,
      (generator.number position).toNat < 2 ^ 31 := fun position => by
    rw [number_eq]
    exact inRange.advance _
  let draw (offset : Fin (2 ^ 31)) : Fin (2 ^ 31) :=
    ⟨(generator.number (start + offset)).toNat, numberSmall _⟩
  have injective : Function.Injective draw := by
    intro first second same
    have numbers : (draw first).val = (draw second).val :=
      congrArg Fin.val same
    have equal := UInt64.toNat_inj.mp numbers
    apply Fin.ext
    rcases Nat.le_total first second with ordered | ordered
    · exact inRange.offset_inj ordered second.isLt equal.symm
    · exact (inRange.offset_inj ordered first.isLt equal).symm
  obtain ⟨offset, drawn⟩ :=
    Finite.injective_iff_surjective.mp injective ⟨value, small⟩
  have found := congrArg Fin.val drawn
  refine ⟨offset, ⟨offset.isLt, found⟩, ?_⟩
  rintro other ⟨otherSmall, otherFound⟩
  have same : draw ⟨other, otherSmall⟩ = draw offset :=
    Fin.ext (otherFound.trans found.symm)
  exact congrArg Fin.val (injective same)

/-- The numbers determine the state from which they are drawn: it is the last
one before they repeat. -/
theorem InRange.eq_of_numbers (inRange : generator.InRange)
    (otherInRange : other.InRange)
    (same : ∀ position, generator.number position = other.number position) :
    generator = other := by
  obtain ⟨last, next⟩ : ∃ last, last + 1 = 2 ^ 31 := ⟨2 ^ 31 - 1, by norm_num⟩
  have returned : ∀ {generator : Congruential}, generator.InRange →
      generator.number last = generator.state := fun inRange => by
    rw [number_eq, next, (inRange.advance_eq_self_iff _).mpr (dvd_refl _)]
  have states := same last
  rw [returned inRange, returned otherInRange] at states
  exact congrArg mk states

theorem ofSeed_eq_ofSeed_iff (seed other : UInt64) :
    ofSeed seed = ofSeed other ↔
      seed.toNat % 2 ^ 31 = other.toNat % 2 ^ 31 := by
  rw [← state_ofSeed, ← state_ofSeed, UInt64.toNat_inj]
  exact ⟨congrArg state, congrArg mk⟩

/-- A generator that runs through all numbers below the modulus before it
repeats any of them. -/
structure FullPeriod (generator : Congruential) : Prop where
  inRange : ∀ steps, (generator.advance steps).state.toNat < 2 ^ 31
  /-- The product and the sum of no step exceed the machine words. -/
  fits : ∀ steps, (generator.advance steps).state.toNat * multiplier.toNat +
    increment.toNat < UInt64.size
  /-- The numbers repeat from the first one on, after the multiples of the
  modulus and after no other number of steps. -/
  period_iff : ∀ period,
    (∀ position, generator.number (position + period) =
      generator.number position) ↔ 2 ^ 31 ∣ period
  occurs : ∀ start value, value < 2 ^ 31 → ∃! offset, offset < 2 ^ 31 ∧
    (generator.number (start + offset)).toNat = value

/-- The generator has its full period from every seed, and two seeds give the
same numbers if, and only if, they agree modulo `2 ^ 31`. -/
theorem ofSeed_period (seed other : UInt64) :
    (ofSeed seed).FullPeriod ∧
      ((∀ position,
          (ofSeed seed).number position = (ofSeed other).number position) ↔
        seed.toNat % 2 ^ 31 = other.toNat % 2 ^ 31) := by
  have inRange := inRange_ofSeed seed
  refine ⟨⟨inRange.advance, fun steps => (inRange.advance steps).fits,
    fun period => ?_, fun start _ => inRange.existsUnique_number start⟩, ?_⟩
  · simp only [inRange.number_add_eq_iff, forall_const]
  · rw [← ofSeed_eq_ofSeed_iff]
    constructor
    · exact inRange.eq_of_numbers (inRange_ofSeed other)
    · exact fun equal _ => equal ▸ rfl

end Congruential

end SmallWorld
