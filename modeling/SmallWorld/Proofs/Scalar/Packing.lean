import SmallWorld.Proofs.Scalar.Unpacked

/-!
# Packing

Finite numbers are packed into bits and read back without a change, as long
as they are not beyond the greatest scalar.
-/

namespace SmallWorld.Scalar

open Float.Model UnpackedFloat

theorem Measures.representable {sign : Sign} {magnitude : ℝ}
    {unpacked : UnpackedFloat} (measures : Measures sign magnitude unpacked) :
    Representable magnitude := by
  cases unpacked with
  | zero stored => exact measures.2 ▸ representable_zero
  | finite stored mantissa exponent positive =>
      obtain ⟨_, small, least, _, value⟩ := measures
      refine ⟨mantissa, exponent, ?_, least, by rw [value]; norm_num⟩
      rw [Nat.abs_cast]
      exact_mod_cast small.le
  | infinity stored => exact measures.elim
  | notANumber => exact measures.elim

theorem Measures.nonneg {sign : Sign} {magnitude : ℝ}
    {unpacked : UnpackedFloat} (measures : Measures sign magnitude unpacked) :
    0 ≤ magnitude := by
  cases unpacked with
  | zero stored => exact measures.2.ge
  | finite stored mantissa exponent positive =>
      rw [measures.2.2.2.2]
      positivity
  | infinity stored => exact measures.elim
  | notANumber => exact measures.elim

theorem Shows.representable {unpacked : UnpackedFloat} {number : ℝ}
    (shows_ : Shows unpacked number) : Representable number := by
  obtain ⟨sign, magnitude, measures, rfl⟩ := shows_
  cases sign with
  | negative => exact measures.representable.neg
  | positive => exact measures.representable

theorem IsNearest.refl {number : ℝ} (stored : Representable number) :
    IsNearest number number :=
  ⟨stored, fun other _ => by simp⟩

theorem unpackSign_packComponents (sign : Sign) (exponent : BitVec 8)
    (mantissa : BitVec 23) :
    @unpackSign .binary32 (packComponents .binary32 sign exponent mantissa) =
      sign.toBitVec := by
  have signBound := sign.toBitVec.isLt
  have exponentBound := exponent.isLt
  have mantissaBound := mantissa.isLt
  apply BitVec.eq_of_toNat_eq
  rw [toNat_unpackSign, toNat_packComponents]
  omega

@[simp]
theorem ofBitVec_toBitVec (sign : Sign) :
    Sign.ofBitVec sign.toBitVec = sign := by
  cases sign <;> rfl

private theorem unpack_packComponents (sign : Sign) (exponent : BitVec 8)
    (mantissa : BitVec 23) (finite : exponent ≠ -1#8) :
    UnpackedFloat.unpack .binary32 (packComponents .binary32 sign exponent mantissa) =
      if exponent = 0#8 then
        if zero : mantissa = 0#23 then .zero sign
        else .finite sign mantissa.toNat (-149)
          (by simpa [BitVec.toNat_pos, BitVec.pos_iff_ne_zero])
      else .finite sign (0x800000 + mantissa.toNat) (exponent.toNat - 150)
        (by omega) := by
  have implicit : (1#1 ++ mantissa).toNat = 0x800000 + mantissa.toNat := by
    rw [BitVec.toNat_append]
    simpa using (Nat.two_pow_add_eq_or_of_lt mantissa.isLt 1).symm
  unfold UnpackedFloat.unpack
  simp only [unpackExponent_packComponents, unpackMantissa_packComponents,
    unpackSign_packComponents, ofBitVec_toBitVec]
  rw [if_neg finite]
  by_cases empty : exponent = 0#8
  · subst empty
    rfl
  · rw [if_neg empty, if_neg empty]
    simp only [implicit]
    rfl

/-- The leading bit of a long mantissa is implicit in the bits. -/
private theorem unpack_pack_normal (sign : Sign) {mantissa : ℕ}
    {exponent : ℤ} (positive : 0 < mantissa) (small : mantissa < 0x1000000)
    (normal : 0x800000 ≤ mantissa) (least : -149 ≤ exponent)
    (greatest : exponent ≤ 104) :
    UnpackedFloat.unpack .binary32
        (UnpackedFloat.pack .binary32
          (.finite sign mantissa exponent positive)) =
      .finite sign mantissa exponent positive := by
  have biasNat :
      ((Format.exponentBias Format.binary32 : Nat) : Int) = 127 := rfl
  have log : mantissa.log2 = 23 := by
    rw [Nat.log2_eq_iff (by omega)]
    exact ⟨normal, small⟩
  obtain ⟨biased, hbiased⟩ : ∃ biased : ℕ, exponent + 150 = biased :=
    ⟨(exponent + 150).toNat, by omega⟩
  have toNat : (BitVec.ofNat 8 biased).toNat = biased := by
    rw [BitVec.toNat_ofNat, Nat.mod_eq_of_lt (by omega)]
  have packed : UnpackedFloat.pack .binary32
      (.finite sign mantissa exponent positive) =
        packComponents .binary32 sign (BitVec.ofNat 8 biased)
          (BitVec.ofNat 23 mantissa) := by
    unfold UnpackedFloat.pack
    simp only [biasNat]
    rw [show (exponent + 127 + ((23 : ℕ) : ℤ)).toNat = biased by omega]
    rw [if_neg (by norm_num; omega), if_pos (by rw [log]; rfl)]
  rw [packed, unpack_packComponents, if_neg]
  · have back : 0x800000 + (BitVec.ofNat 23 mantissa).toNat = mantissa := by
      rw [BitVec.toNat_ofNat]
      omega
    simp only [back, toNat]
    congr 1
    omega
  · intro zero
    have := congrArg BitVec.toNat zero
    rw [toNat] at this
    simp at this
    omega
  · intro ones
    have := congrArg BitVec.toNat ones
    rw [toNat] at this
    simp at this
    omega

/-- A short mantissa is stored as it is. -/
private theorem unpack_pack_subnormal (sign : Sign) {mantissa : ℕ}
    (positive : 0 < mantissa) (short : mantissa < 0x800000) :
    UnpackedFloat.unpack .binary32
        (UnpackedFloat.pack .binary32
          (.finite sign mantissa (-149) positive)) =
      .finite sign mantissa (-149) positive := by
  have biasNat :
      ((Format.exponentBias Format.binary32 : Nat) : Int) = 127 := rfl
  have log : mantissa.log2 < 23 := (Nat.log2_lt (by omega)).mpr (by omega)
  have toNat : (BitVec.ofNat 23 mantissa).toNat = mantissa := by
    rw [BitVec.toNat_ofNat, Nat.mod_eq_of_lt (by omega)]
  have packed : UnpackedFloat.pack .binary32
      (.finite sign mantissa (-149) positive) =
        packComponents .binary32 sign 0#8 (BitVec.ofNat 23 mantissa) := by
    unfold UnpackedFloat.pack
    simp only [biasNat]
    rw [if_neg (by norm_num), if_neg]
    change ¬ mantissa.log2 + 1 = 24
    omega
  rw [packed, unpack_packComponents _ _ _ (by decide), if_pos rfl, dif_neg]
  · simp only [toNat]
  · intro zero
    have := congrArg BitVec.toNat zero
    rw [toNat] at this
    simp at this
    omega

/-- A rounded number that is not too large survives packing. -/
theorem unpack_pack {sign : Sign} {magnitude : ℝ} {unpacked : UnpackedFloat}
    (measures : Measures sign magnitude unpacked)
    (bound : magnitude < 2 ^ (128 : ℤ)) :
    UnpackedFloat.unpack .binary32 (UnpackedFloat.pack .binary32 unpacked) =
      unpacked := by
  cases unpacked with
  | zero stored =>
      exact unpack_packComponents stored 0#8 0#23 (by decide)
  | finite stored mantissa exponent positive =>
      obtain ⟨-, small, least, full, value⟩ := measures
      by_cases normal : 0x800000 ≤ mantissa
      · have lower : (2 : ℝ) ^ (exponent + 23) ≤ magnitude := by
          rw [value, zpow_add₀ (by norm_num), mul_comm]
          refine mul_le_mul_of_nonneg_right ?_ (by positivity)
          have : ((0x800000 : ℕ) : ℝ) ≤ mantissa := by exact_mod_cast normal
          norm_num at this ⊢
          exact this
        have := (zpow_lt_zpow_iff_right₀ (by norm_num : (1 : ℝ) < 2)).mp
          (lower.trans_lt bound)
        exact unpack_pack_normal stored positive small normal least (by omega)
      · obtain rfl : exponent = -149 := full.resolve_left normal
        exact unpack_pack_subnormal stored positive (by omega)
  | infinity stored => exact measures.elim
  | notANumber => exact measures.elim

/-- What is read from bits has as long a mantissa as its exponent calls
for. -/
theorem exists_measures_unpack {bits : BitVec 32}
    (finite : (UnpackedFloat.unpack .binary32 bits).isFinite = true) :
    ∃ sign magnitude,
      Measures sign magnitude (UnpackedFloat.unpack .binary32 bits) ∧
        magnitude ≤ greatestNumber := by
  have bound := bits.isLt
  have biasNat :
      ((Format.exponentBias Format.binary32 : Nat) : Int) = 127 := rfl
  have greatest : ((0xffffff : ℕ) : ℝ) * 2 ^ (104 : ℤ) = greatestNumber := by
    norm_num [greatestNumber]
  unfold UnpackedFloat.unpack at finite ⊢
  dsimp only at finite ⊢
  by_cases largest : bits.toNat / 0x800000 % 256 = 255
  · rw [if_pos ((unpackExponent_eq_full_iff bits).mpr largest)] at finite
    split at finite <;> cases finite
  · rw [if_neg (mt (unpackExponent_eq_full_iff bits).mp largest)]
    by_cases smallest : bits.toNat / 0x800000 % 256 = 0
    · rw [if_pos ((unpackExponent_eq_zero_iff bits).mpr smallest)]
      by_cases noFraction : bits.toNat % 0x800000 = 0
      · rw [dif_pos ((unpackMantissa_eq_zero_iff bits).mpr noFraction)]
        refine ⟨_, 0, ⟨rfl, rfl⟩, ?_⟩
        rw [← greatest]
        positivity
      · rw [dif_neg (mt (unpackMantissa_eq_zero_iff bits).mp noFraction)]
        refine ⟨_, _, ⟨rfl, ?_, ?_, Or.inr ?_, rfl⟩, ?_⟩
        · rw [toNat_unpackMantissa]
          omega
        · rw [toNat_unpackExponent, smallest, biasNat]
          norm_num
        · rw [toNat_unpackExponent, smallest, biasNat]
          norm_num
        · rw [toNat_unpackExponent, smallest, biasNat, toNat_unpackMantissa,
            ← greatest]
          refine mul_le_mul ?_ ?_ (by positivity) (by positivity)
          · have : bits.toNat % 0x800000 ≤ 0xffffff := by omega
            exact_mod_cast this
          · exact zpow_le_zpow_right₀ (by norm_num) (by norm_num)
    · rw [if_neg (mt (unpackExponent_eq_zero_iff bits).mp smallest)]
      refine ⟨_, _, ⟨rfl, ?_, ?_, Or.inl ?_, rfl⟩, ?_⟩
      · rw [toNat_implicitBit_append]
        omega
      · rw [toNat_unpackExponent, biasNat]
        push_cast
        omega
      · rw [toNat_implicitBit_append]
        omega
      · rw [toNat_unpackExponent, biasNat, toNat_implicitBit_append,
          ← greatest]
        refine mul_le_mul ?_ ?_ (by positivity) (by positivity)
        · have : 0x800000 + bits.toNat % 0x800000 ≤ 0xffffff := by omega
          exact_mod_cast this
        · refine zpow_le_zpow_right₀ (by norm_num) ?_
          push_cast
          omega

end SmallWorld.Scalar
