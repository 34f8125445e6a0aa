import SmallWorld.Proofs.Scalar.Comparison

/-!
# Signs

Rounding keeps the sign of a number, so a square has no negative sign, and
neither have sums and roots of such numbers (`Unsigned`).  This also holds
where an operation overflows or ends in a NaN.  Hence a finite result of them
is a magnitude (`exists_magnitude`), whatever their operands were.
-/

namespace SmallWorld.Scalar

open Float.Model UnpackedFloat

/-- Whether a number has no negative sign; a NaN has none. -/
def Unsigned : UnpackedFloat → Prop
  | .notANumber => True
  | .infinity sign => sign = .positive
  | .zero sign => sign = .positive
  | .finite sign _ _ _ => sign = .positive

theorem unsigned_roundWithAccuracy (mantissa : Nat) (exponent : ℤ)
    (accuracy : Accuracy) :
    Unsigned (UnpackedFloat.roundWithAccuracy .binary32 .positive mantissa
      exponent accuracy) := by
  unfold UnpackedFloat.roundWithAccuracy
  dsimp only
  split
  · rfl
  · rfl

theorem unsigned_normalize {mantissa : ℤ} (nonneg : 0 ≤ mantissa)
    (exponent : ℤ) :
    Unsigned (UnpackedFloat.normalize .binary32 mantissa exponent
      .positive) := by
  unfold UnpackedFloat.normalize
  rcases nonneg.eq_or_lt with rfl | positive
  · rfl
  · rw [Int.compare_eq_gt.mpr positive]
    exact unsigned_roundWithAccuracy _ _ _

theorem unsigned_mul_self (unpacked : UnpackedFloat) :
    Unsigned (UnpackedFloat.mul .binary32 unpacked unpacked) := by
  cases unpacked with
  | notANumber => trivial
  | infinity sign => cases sign <;> rfl
  | zero sign => cases sign <;> rfl
  | finite sign mantissa exponent positive =>
      have cancel : sign * sign = .positive := by cases sign <;> rfl
      change Unsigned (roundWithAccuracy .binary32 (sign * sign) _ _ _)
      rw [cancel]
      exact unsigned_roundWithAccuracy _ _ _

theorem unsigned_add {left right : UnpackedFloat}
    (leftUnsigned : Unsigned left) (rightUnsigned : Unsigned right) :
    Unsigned (UnpackedFloat.add .binary32 left right) := by
  cases left with
  | notANumber => trivial
  | infinity sign =>
      cases leftUnsigned
      cases right with
      | notANumber => trivial
      | infinity sign' => cases rightUnsigned; rfl
      | zero sign' => rfl
      | finite sign' mantissa exponent positive => rfl
  | zero sign =>
      cases leftUnsigned
      cases right with
      | notANumber => trivial
      | infinity sign' => exact rightUnsigned
      | zero sign' => cases rightUnsigned; rfl
      | finite sign' mantissa exponent positive => exact rightUnsigned
  | finite sign mantissa exponent positive =>
      cases leftUnsigned
      cases right with
      | notANumber => trivial
      | infinity sign' => exact rightUnsigned
      | zero sign' => rfl
      | finite sign' mantissa' exponent' positive' =>
          cases rightUnsigned
          exact unsigned_normalize
            (Int.add_nonneg (Int.natCast_nonneg _) (Int.natCast_nonneg _)) _

theorem unsigned_zero_add {right : UnpackedFloat}
    (rightUnsigned : Unsigned right) :
    Unsigned (UnpackedFloat.add .binary32 (.zero .negative) right) := by
  cases right with
  | notANumber => trivial
  | infinity sign => exact rightUnsigned
  | zero sign => cases rightUnsigned; rfl
  | finite sign mantissa exponent positive => exact rightUnsigned

theorem unsigned_sqrt {unpacked : UnpackedFloat}
    (unsigned : Unsigned unpacked) :
    Unsigned (UnpackedFloat.sqrt .binary32 unpacked) := by
  cases unpacked with
  | notANumber => trivial
  | infinity sign => cases unsigned; rfl
  | zero sign => exact unsigned
  | finite sign mantissa exponent positive =>
      cases unsigned
      exact unsigned_roundWithAccuracy _ _ _

theorem unsigned_unpack {bits : BitVec 32} (small : bits.toNat < 0x80000000) :
    Unsigned (UnpackedFloat.unpack .binary32 bits) := by
  have positive : Sign.ofBitVec (@unpackSign .binary32 bits) = .positive := by
    rw [sign_unpackSign, if_pos small]
  unfold UnpackedFloat.unpack
  dsimp only
  rw [positive]
  split
  · split
    · rfl
    · trivial
  · split
    · split
      · rfl
      · rfl
    · rfl

private theorem toNat_packComponents_lt (exponent : BitVec 8)
    (mantissa : BitVec 23) :
    (packComponents .binary32 .positive exponent mantissa).toNat <
      0x80000000 := by
  have exponentBound := exponent.isLt
  have mantissaBound := mantissa.isLt
  rw [toNat_packComponents]
  change (0 * 256 + _) * _ + _ < _
  omega

theorem unsigned_unpack_pack {unpacked : UnpackedFloat}
    (unsigned : Unsigned unpacked) :
    Unsigned (UnpackedFloat.unpack .binary32
      (UnpackedFloat.pack .binary32 unpacked)) := by
  cases unpacked with
  | notANumber => trivial
  | infinity sign => cases unsigned; rfl
  | zero sign => cases unsigned; rfl
  | finite sign mantissa exponent positive =>
      cases unsigned
      refine unsigned_unpack ?_
      unfold UnpackedFloat.pack
      dsimp only
      split
      · decide
      · split
        · exact toNat_packComponents_lt _ _
        · exact toNat_packComponents_lt _ _

/-- The mark of the quiet NaNs lies in the mantissa. -/
private theorem toNat_quiet (bits : BitVec 32) :
    (bits ||| 0x400000#32).toNat / 0x800000 % 256 =
        bits.toNat / 0x800000 % 256 ∧
      (bits ||| 0x400000#32).toNat % 0x800000 ≠ 0 := by
  rw [BitVec.toNat_or]
  constructor
  · have shifted : (bits.toNat ||| 2 ^ 22) >>> 23 = bits.toNat >>> 23 := by
      rw [Nat.shiftRight_or_distrib]
      exact Nat.or_zero _
    rw [Nat.shiftRight_eq_div_pow, Nat.shiftRight_eq_div_pow] at shifted
    exact congrArg (· % 256) shifted
  · intro zero
    have marked : ((bits.toNat ||| 2 ^ 22) % 2 ^ 23).testBit 22 = true := by
      rw [Nat.testBit_mod_two_pow, Nat.testBit_or, Nat.testBit_two_pow_self]
      simp
    rw [show (bits.toNat ||| 2 ^ 22) % 2 ^ 23 = 0 from zero] at marked
    cases marked

theorem isNaN_iff (scalar : Scalar) : scalar.isNaN = true ↔
    scalar.bits.toNat / 0x800000 % 256 = 255 ∧
      scalar.bits.toNat % 0x800000 ≠ 0 := by
  change scalar.value.toModel.unpack.isNaN = true ↔ _
  rw [unpack_value]
  change _ ↔ scalar.bits.toBitVec.toNat / 0x800000 % 256 = 255 ∧
    scalar.bits.toBitVec.toNat % 0x800000 ≠ 0
  rw [← unpackExponent_eq_full_iff, ne_eq, ← unpackMantissa_eq_zero_iff]
  unfold UnpackedFloat.unpack
  dsimp only
  split
  · next full =>
      split
      · next zero =>
          exact iff_of_false Bool.false_ne_true fun both => both.2 zero
      · next fraction => exact iff_of_true rfl ⟨full, fraction⟩
  · next notFull =>
      have number : ¬ (@unpackExponent .binary32 scalar.bits.toBitVec = -1#8 ∧
          @unpackMantissa .binary32 scalar.bits.toBitVec ≠ 0#23) :=
        fun both => notFull both.1
      split
      · split
        · exact iff_of_false Bool.false_ne_true number
        · exact iff_of_false Bool.false_ne_true number
      · exact iff_of_false Bool.false_ne_true number

theorem isNaN_quiet {scalar : Scalar} (isNaN : scalar.isNaN = true) :
    scalar.quiet.isNaN = true := by
  obtain ⟨exponent, mantissa⟩ := toNat_quiet scalar.bits.toBitVec
  exact (isNaN_iff _).mpr
    ⟨exponent.trans ((isNaN_iff scalar).mp isNaN).1, mantissa⟩

theorem isNaN_nanOf (left right : Scalar) :
    (nanOf left right).isNaN = true := by
  unfold nanOf
  split
  · next isNaN => exact isNaN_quiet isNaN
  · split
    · next isNaN => exact isNaN_quiet isNaN
    · decide +kernel

theorem unsigned_of_isNaN {scalar : Scalar} (isNaN : scalar.isNaN = true) :
    Unsigned scalar.unpacked := by
  rw [eq_notANumber_of_isNaN (show scalar.unpacked.isNaN = true from isNaN)]
  trivial

theorem unsigned_ofNumber {unpacked : UnpackedFloat} {nan : Scalar}
    (unsigned : Unsigned unpacked) (isNaN : nan.isNaN = true) :
    Unsigned (ofNumber (.ofModel (.pack unpacked)) nan).unpacked := by
  unfold ofNumber
  split
  · exact unsigned_of_isNaN isNaN
  · unfold Scalar.unpacked
    rw [unpack_value]
    exact unsigned_unpack_pack unsigned

section Operations

variable {left right : Scalar}

theorem unsigned_square (scalar : Scalar) :
    Unsigned (scalar * scalar).unpacked :=
  unsigned_ofNumber (unsigned_mul_self scalar.unpacked) (isNaN_nanOf _ _)

theorem unsigned_sum (leftUnsigned : Unsigned left.unpacked)
    (rightUnsigned : Unsigned right.unpacked) :
    Unsigned (left + right).unpacked :=
  unsigned_ofNumber (unsigned_add leftUnsigned rightUnsigned)
    (isNaN_nanOf left right)

theorem unsigned_negativeZero_sum (rightUnsigned : Unsigned right.unpacked) :
    Unsigned (negativeZero + right).unpacked :=
  unsigned_ofNumber (unsigned_zero_add rightUnsigned) (isNaN_nanOf _ right)

theorem unsigned_root (unsigned : Unsigned left.unpacked) :
    Unsigned left.sqrt.unpacked :=
  unsigned_ofNumber (unsigned_sqrt unsigned) (isNaN_nanOf left left)

end Operations

/-- A finite scalar without a negative sign is a magnitude. -/
theorem exists_magnitude {scalar : Scalar}
    (unsigned : Unsigned scalar.unpacked) (finite : scalar.isFinite = true) :
    ∃ number, scalar.Magnitude number := by
  obtain ⟨number, ⟨sign, magnitude, measures, _⟩, _⟩ := exists_stands finite
  refine ⟨magnitude, ?_⟩
  unfold Magnitude
  generalize scalar.unpacked = unpacked at unsigned measures
  cases unpacked with
  | notANumber => exact measures.elim
  | infinity stored => exact measures.elim
  | zero stored => exact ⟨unsigned, measures.2⟩
  | finite stored mantissa exponent positive => exact ⟨unsigned, measures.2⟩

end SmallWorld.Scalar
