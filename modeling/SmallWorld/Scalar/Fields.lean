import SmallWorld.Scalar

/-!
# The fields of a scalar

The bits of a scalar are a sign, an exponent of eight bits and a mantissa of
23 bits.  A number that is read from bits and written again has the same
bits, unless it is a NaN.  Hence `Scalar.unpack_value`: the number of a
scalar is what its bits say, although it forgets which NaN it came from.
-/

namespace SmallWorld.Scalar

open Float.Model UnpackedFloat

theorem toNat_unpackExponent (bits : BitVec 32) :
    (@unpackExponent .binary32 bits).toNat =
      bits.toNat / 0x800000 % 256 := by
  change (bits.toNat >>> 23) % 256 = bits.toNat / 0x800000 % 256
  rw [Nat.shiftRight_eq_div_pow]

theorem toNat_unpackMantissa (bits : BitVec 32) :
    (@unpackMantissa .binary32 bits).toNat =
      bits.toNat % 0x800000 := by
  rfl

theorem toNat_unpackSign (bits : BitVec 32) :
    (@unpackSign .binary32 bits).toNat =
      bits.toNat / 0x80000000 % 2 := by
  change (bits.toNat >>> 31) % 2 = bits.toNat / 0x80000000 % 2
  rw [Nat.shiftRight_eq_div_pow]

theorem sign_unpackSign (bits : BitVec 32) :
    Sign.ofBitVec (@unpackSign .binary32 bits) =
      if bits.toNat < 0x80000000 then .positive else .negative := by
  have bound := bits.isLt
  have signBit := toNat_unpackSign bits
  unfold Sign.ofBitVec
  by_cases small : bits.toNat < 0x80000000
  · have clear : @unpackSign .binary32 bits = 0#1 := by
      apply BitVec.eq_of_toNat_eq
      rw [signBit]
      simp
      omega
    rw [if_pos small, if_pos clear]
  · have set : @unpackSign .binary32 bits ≠ 0#1 := by
      intro clear
      rw [clear] at signBit
      simp at signBit
      omega
    rw [if_neg small, if_neg set]

/-- The exponent is that of an infinity or a NaN when its field is full. -/
theorem unpackExponent_eq_full_iff (bits : BitVec 32) :
    @unpackExponent .binary32 bits = -1#8 ↔
      bits.toNat / 0x800000 % 256 = 255 := by
  rw [← toNat_unpackExponent, ← BitVec.toNat_inj]
  simp

/-- The exponent is that of a zero or a small number when its field is
empty. -/
theorem unpackExponent_eq_zero_iff (bits : BitVec 32) :
    @unpackExponent .binary32 bits = 0#8 ↔
      bits.toNat / 0x800000 % 256 = 0 := by
  rw [← toNat_unpackExponent, ← BitVec.toNat_inj]
  simp

theorem unpackMantissa_eq_zero_iff (bits : BitVec 32) :
    @unpackMantissa .binary32 bits = 0#23 ↔
      bits.toNat % 0x800000 = 0 := by
  rw [← toNat_unpackMantissa, ← BitVec.toNat_inj]
  simp

/-- The mantissa of a number that is not small has one bit more than its
field, and that bit is set. -/
theorem toNat_implicitBit_append (bits : BitVec 32) :
    (1#1 ++ @unpackMantissa .binary32 bits).toNat =
      0x800000 + bits.toNat % 0x800000 := by
  have small : bits.toNat % 0x800000 < 2 ^ 23 :=
    Nat.mod_lt _ (by decide)
  rw [BitVec.toNat_append, toNat_unpackMantissa]
  simpa using (Nat.two_pow_add_eq_or_of_lt small 1).symm

theorem toNat_packComponents (sign : Sign) (exponent : BitVec 8)
    (mantissa : BitVec 23) :
    (packComponents .binary32 sign exponent mantissa).toNat =
      (sign.toBitVec.toNat * 256 + exponent.toNat) * 0x800000 +
        mantissa.toNat := by
  change (sign.toBitVec ++ exponent ++ mantissa).toNat = _
  rw [BitVec.toNat_append, BitVec.toNat_append,
    ← Nat.shiftLeft_add_eq_or_of_lt exponent.isLt,
    ← Nat.shiftLeft_add_eq_or_of_lt mantissa.isLt,
    Nat.shiftLeft_eq, Nat.shiftLeft_eq]

/-- Bits are the composition of their fields. -/
private theorem packComponents_of_fields {bits : BitVec 32}
    {exponent : BitVec 8} {mantissa : BitVec 23}
    (sameExponent : exponent.toNat = bits.toNat / 0x800000 % 256)
    (sameMantissa : mantissa.toNat = bits.toNat % 0x800000) :
    packComponents .binary32 (Sign.ofBitVec (@unpackSign .binary32 bits))
      exponent mantissa = bits := by
  have bound := bits.isLt
  apply BitVec.eq_of_toNat_eq
  rw [toNat_packComponents, sameExponent, sameMantissa, sign_unpackSign]
  by_cases small : bits.toNat < 0x80000000
  · rw [if_pos small]
    change (0 * 256 + _) * _ + _ = _
    omega
  · rw [if_neg small]
    change (1 * 256 + _) * _ + _ = _
    omega

/-- Bits that are not those of a NaN are what is written for the number that
is read from them. -/
private theorem pack_unpack {bits : BitVec 32}
    (number : (UnpackedFloat.unpack .binary32 bits).isNaN = false) :
    UnpackedFloat.pack .binary32 (UnpackedFloat.unpack .binary32 bits) =
      bits := by
  have mantissaBound : bits.toNat % 0x800000 < 0x800000 :=
    Nat.mod_lt _ (by decide)
  have biasNat :
      ((Format.exponentBias Format.binary32 : Nat) : Int) = 127 := rfl
  have width : Format.binary32.mantissaBitsWithoutImplicit = 23 := rfl
  unfold UnpackedFloat.unpack at number ⊢
  dsimp only at number ⊢
  by_cases full : bits.toNat / 0x800000 % 256 = 255
  · rw [if_pos ((unpackExponent_eq_full_iff bits).mpr full)] at number ⊢
    by_cases noFraction : bits.toNat % 0x800000 = 0
    · rw [if_pos ((unpackMantissa_eq_zero_iff bits).mpr noFraction)]
      exact packComponents_of_fields full.symm noFraction.symm
    · rw [if_neg (mt (unpackMantissa_eq_zero_iff bits).mp noFraction)]
        at number
      cases number
  · rw [if_neg (mt (unpackExponent_eq_full_iff bits).mp full)]
    by_cases empty : bits.toNat / 0x800000 % 256 = 0
    · rw [if_pos ((unpackExponent_eq_zero_iff bits).mpr empty)]
      by_cases noFraction : bits.toNat % 0x800000 = 0
      · rw [dif_pos ((unpackMantissa_eq_zero_iff bits).mpr noFraction)]
        exact packComponents_of_fields empty.symm noFraction.symm
      · rw [dif_neg (mt (unpackMantissa_eq_zero_iff bits).mp noFraction)]
        have notNormal : ¬ 23 ≤ (bits.toNat % 0x800000).log2 := by
          rw [Nat.le_log2 noFraction]
          omega
        refine (if_neg ?_).trans <| (if_neg ?_).trans <|
          packComponents_of_fields empty.symm ?_
        · rw [toNat_unpackExponent, biasNat, empty]
          decide
        · rw [toNat_unpackMantissa]
          change ¬ _ + 1 = 24
          omega
        · rw [BitVec.toNat_ofNat, toNat_unpackMantissa]
          exact Nat.mod_mod _ _
    · rw [if_neg (mt (unpackExponent_eq_zero_iff bits).mp empty)]
      have normal : (0x800000 + bits.toNat % 0x800000).log2 = 23 := by
        rw [Nat.log2_eq_iff (by omega)]
        omega
      refine (if_neg ?_).trans <| (if_pos ?_).trans <|
        packComponents_of_fields ?_ ?_
      · rw [toNat_unpackExponent, biasNat]
        change ¬ 256 ≤ _
        omega
      · rw [toNat_implicitBit_append, normal]
        rfl
      · rw [BitVec.toNat_ofNat, toNat_unpackExponent, biasNat]
        change _ % 256 = _
        omega
      · rw [BitVec.toNat_ofNat, toNat_implicitBit_append]
        change _ % 0x800000 = _
        omega

/-- There is one NaN among the numbers. -/
theorem eq_notANumber_of_isNaN {number : UnpackedFloat}
    (isNaN : number.isNaN = true) : number = .notANumber := by
  cases number with
  | notANumber => rfl
  | infinity _ => cases isNaN
  | zero _ => cases isNaN
  | finite _ _ _ _ => cases isNaN

/-- Whether read from the bits of a scalar or from its number, sign, exponent
and mantissa are the same. -/
theorem unpack_value (scalar : Scalar) :
    scalar.value.toModel.unpack =
      UnpackedFloat.unpack .binary32 scalar.bits.toBitVec := by
  change UnpackedFloat.unpack .binary32 (UnpackedFloat.pack .binary32
    (UnpackedFloat.unpack .binary32 scalar.bits.toBitVec)) = _
  cases number :
      (UnpackedFloat.unpack .binary32 scalar.bits.toBitVec).isNaN with
  | false => rw [pack_unpack number]
  | true =>
      rw [eq_notANumber_of_isNaN number]
      rfl

end SmallWorld.Scalar
