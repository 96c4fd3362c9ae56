import DaemonNode.Proto.Canonical
import Mathlib.Data.Nat.Bitwise

/-!
# Singles that a half holds

The writer cuts a single to a half and keeps the half if it widens to the single again. No
half that does is missed: the cut undoes the widening, field by field, but for the payload of
a NaN. Widening keeps the number: a finite float is a sign and a count of the least positive
float of its format.
-/

namespace DaemonNode.Canonical

/-- Whether a single is not a number. -/
def isNan32 (bits : BitVec 32) : Bool :=
  bits.toNat / 2 ^ 23 % 2 ^ 8 = 255 ∧ bits.toNat % 2 ^ 23 ≠ 0

/-- The size of a finite float with so many mantissa and exponent bits, as a count of the
least positive one. -/
def units (place width bits : Nat) : Nat :=
  let exponent := bits / 2 ^ place % 2 ^ width
  let mantissa := bits % 2 ^ place
  if exponent = 0 then mantissa else (2 ^ place + mantissa) * 2 ^ (exponent - 1)

/-- A single and a half are the same number: `2 ^ 125` of the least positive singles are one
least positive half. -/
structure Widens (half : BitVec 16) (single : BitVec 32) : Prop where
  sign : single.toNat / 2 ^ 31 = half.toNat / 2 ^ 15
  finite : half.toNat / 2 ^ 10 % 2 ^ 5 ≠ 31 →
    single.toNat / 2 ^ 23 % 2 ^ 8 ≠ 255 ∧
      units 23 8 single.toNat = units 10 5 half.toNat * 2 ^ 125
  infinite : half.toNat / 2 ^ 10 % 2 ^ 5 = 31 →
    single.toNat / 2 ^ 23 % 2 ^ 8 = 255 ∧
      (single.toNat % 2 ^ 23 = 0 ↔ half.toNat % 2 ^ 10 = 0)

variable {bits : BitVec 32} {half : BitVec 16}

/-- Fields side by side are a sum. -/
theorem or_fields {width top low : Nat} (sign : Nat) (exponent : top < 2 ^ width)
    (mantissa : low < 2 ^ place) :
    2 ^ (place + width) * sign ||| 2 ^ place * top ||| low =
      2 ^ (place + width) * sign + 2 ^ place * top + low := by
  have upper : 2 ^ (place + width) * sign ||| 2 ^ place * top =
      2 ^ place * (2 ^ width * sign + top) := by
    rw [Nat.mul_add, ← Nat.mul_assoc, ← Nat.pow_add, Nat.two_pow_add_eq_or_of_lt]
    rw [Nat.pow_add]
    exact Nat.mul_lt_mul_of_pos_left exponent (Nat.two_pow_pos _)
  rw [upper, ← Nat.two_pow_add_eq_or_of_lt mantissa, Nat.mul_add, ← Nat.mul_assoc, ← Nat.pow_add]

theorem land_bit (number place : Nat) :
    number &&& 2 ^ place = 2 ^ place * (number / 2 ^ place % 2) := by
  rw [Nat.and_two_pow, Nat.toNat_testBit, Nat.mul_comm]

/-- The fields of a widened half that is not subnormal. -/
theorem halfToF32_toNat (field : half.toNat / 2 ^ 10 % 2 ^ 5 = e) (normal : e ≠ 0) :
    (halfToF32 half).toNat = 2 ^ 31 * (half.toNat / 2 ^ 15) +
      2 ^ 23 * (if e = 31 then 255 else e + 112) + 2 ^ 13 * (half.toNat % 2 ^ 10) := by
  have small := half.isLt
  have wide : (half.setWidth 32).toNat = half.toNat := BitVec.toNat_setWidth_of_le (by decide)
  have exponent : ((half.setWidth 32 >>> 10) &&& 0x1f#32).toNat = e := by
    rw [BitVec.toNat_and, BitVec.toNat_ushiftRight, wide, Nat.shiftRight_eq_div_pow, ← field]
    exact Nat.and_two_pow_sub_one_eq_mod _ 5
  have mantissa : ((half.setWidth 32 &&& 0x03ff#32) <<< 13).toNat =
      2 ^ 13 * (half.toNat % 2 ^ 10) := by
    rw [BitVec.toNat_shiftLeft, BitVec.toNat_and, wide, Nat.shiftLeft_eq]
    rw [show half.toNat &&& (0x03ff#32).toNat = _ from Nat.and_two_pow_sub_one_eq_mod _ 10]
    omega
  have sign : ((half.setWidth 32 &&& 0x8000#32) <<< 16).toNat = 2 ^ 31 * (half.toNat / 2 ^ 15) := by
    rw [BitVec.toNat_shiftLeft, BitVec.toNat_and, wide, Nat.shiftLeft_eq]
    rw [show half.toNat &&& (0x8000#32).toNat = _ from land_bit _ 15]
    omega
  unfold halfToF32
  generalize half.setWidth 32 >>> 10 &&& 0x1f#32 = exponentBits at exponent ⊢
  have nonzero : exponentBits ≠ 0 := by
    rintro rfl
    exact normal exponent.symm
  have top : exponentBits = 0x1f ↔ e = 31 := by
    rw [← exponent, ← BitVec.toNat_inj]
    rfl
  simp only [nonzero, if_false, top]
  split
  · rw [BitVec.toNat_or, BitVec.toNat_or, sign, mantissa]
    exact or_fields _ (show 255 < 2 ^ 8 by decide) (by omega)
  · have shifted : ((exponentBits + 112) <<< 23).toNat = 2 ^ 23 * (e + 112) := by
      rw [BitVec.toNat_shiftLeft, BitVec.toNat_add, exponent, Nat.shiftLeft_eq]
      change (e + 112) % 2 ^ 32 * 2 ^ 23 % 2 ^ 32 = _
      omega
    rw [BitVec.toNat_or, BitVec.toNat_or, sign, mantissa, shifted]
    exact or_fields _ (show e + 112 < 2 ^ 8 by omega) (by omega)

/-- The fields of a cut single in the range of the normal halves. -/
theorem f32ToHalfTrunc_toNat (field : bits.toNat / 2 ^ 23 % 2 ^ 8 = e + 112) (low : 0 < e)
    (high : e < 31) :
    (f32ToHalfTrunc bits).toNat =
      2 ^ 15 * (bits.toNat / 2 ^ 31) + 2 ^ 10 * e + bits.toNat % 2 ^ 23 / 2 ^ 13 := by
  have small := bits.isLt
  have exponent : ((bits >>> 23) &&& 0xff#32).toNat = e + 112 := by
    rw [BitVec.toNat_and, BitVec.toNat_ushiftRight, Nat.shiftRight_eq_div_pow, ← field]
    exact Nat.and_two_pow_sub_one_eq_mod _ 8
  have mantissa : (((bits &&& 0x007fffff#32) >>> 13).setWidth 16).toNat =
      bits.toNat % 2 ^ 23 / 2 ^ 13 := by
    rw [BitVec.toNat_setWidth, BitVec.toNat_ushiftRight, BitVec.toNat_and,
      Nat.shiftRight_eq_div_pow]
    rw [show bits.toNat &&& (0x007fffff#32).toNat = _ from Nat.and_two_pow_sub_one_eq_mod _ 23]
    omega
  have sign : (((bits >>> 16) &&& 0x8000#32).setWidth 16).toNat =
      2 ^ 15 * (bits.toNat / 2 ^ 31) := by
    rw [BitVec.toNat_setWidth, BitVec.toNat_and, BitVec.toNat_ushiftRight,
      Nat.shiftRight_eq_div_pow]
    rw [show bits.toNat / 2 ^ 16 &&& (0x8000#32).toNat = _ from land_bit _ 15]
    omega
  have shifted : (BitVec.ofInt 16 (((e + 112 : Nat) : Int) - 127 + 15) <<< 10).toNat =
      2 ^ 10 * e := by
    rw [show ((e + 112 : Nat) : Int) - 127 + 15 = (e : Int) by omega, BitVec.ofInt_natCast,
      BitVec.toNat_shiftLeft, BitVec.toNat_ofNat, Nat.shiftLeft_eq]
    omega
  simp only [f32ToHalfTrunc, exponent]
  rw [if_neg (by omega), if_neg (by omega), if_neg (by omega), if_neg (by omega),
    BitVec.toNat_or, BitVec.toNat_or, sign, shifted, mantissa]
  exact or_fields _ (show e < 2 ^ 5 by omega) (by omega)

set_option maxRecDepth 10000 in
/-- The zeros and the subnormal halves, one by one. -/
theorem halfToF32_subnormal : ∀ (sign : Fin 2) (mantissa : Fin 1024),
    let half := BitVec.ofNat 16 (2 ^ 15 * sign + mantissa)
    f32ToHalfTrunc (halfToF32 half) = half ∧
      (halfToF32 half).toNat / 2 ^ 31 = sign ∧
      (halfToF32 half).toNat / 2 ^ 23 % 2 ^ 8 ≠ 255 ∧
      units 23 8 (halfToF32 half).toNat = mantissa * 2 ^ 125 := by
  decide +kernel

theorem eq_fields_of_subnormal (subnormal : half.toNat / 2 ^ 10 % 2 ^ 5 = 0) :
    ∃ (sign : Fin 2) (mantissa : Fin 1024), half = BitVec.ofNat 16 (2 ^ 15 * sign + mantissa) ∧
      half.toNat / 2 ^ 15 = sign ∧ half.toNat % 2 ^ 10 = mantissa := by
  have small := half.isLt
  refine ⟨⟨half.toNat / 2 ^ 15, by omega⟩, ⟨half.toNat % 2 ^ 10, by omega⟩, ?_, rfl, rfl⟩
  rw [← BitVec.toNat_inj, BitVec.toNat_ofNat]
  change half.toNat = (2 ^ 15 * (half.toNat / 2 ^ 15) + half.toNat % 2 ^ 10) % 2 ^ 16
  omega

/-- Widening keeps the number. -/
theorem widens_halfToF32 (half : BitVec 16) : Widens half (halfToF32 half) := by
  by_cases subnormal : half.toNat / 2 ^ 10 % 2 ^ 5 = 0
  · obtain ⟨sign, mantissa, fields, sign_eq, mantissa_eq⟩ := eq_fields_of_subnormal subnormal
    obtain ⟨_, signed, finite, size⟩ := halfToF32_subnormal sign mantissa
    rw [← fields] at signed finite size
    refine ⟨signed.trans sign_eq.symm, fun _ => ⟨finite, ?_⟩, fun infinite => ?_⟩
    · rw [size, units, if_pos subnormal, mantissa_eq]
    · rw [subnormal] at infinite
      cases infinite
  have small := half.isLt
  have widened := halfToF32_toNat rfl subnormal
  by_cases infinite : half.toNat / 2 ^ 10 % 2 ^ 5 = 31
  · rw [if_pos infinite] at widened
    refine ⟨by omega, fun finite => absurd infinite finite, fun _ => ⟨by omega, by omega⟩⟩
  · rw [if_neg infinite] at widened
    have exponent : (halfToF32 half).toNat / 2 ^ 23 % 2 ^ 8 =
        half.toNat / 2 ^ 10 % 2 ^ 5 + 112 := by
      rw [widened]
      omega
    have mantissa : (halfToF32 half).toNat % 2 ^ 23 = 2 ^ 13 * (half.toNat % 2 ^ 10) := by
      rw [widened]
      omega
    refine ⟨by omega, fun _ => ⟨by omega, ?_⟩, fun infinite' => absurd infinite' infinite⟩
    simp only [units, exponent, mantissa, if_neg subnormal]
    obtain ⟨e, e_eq⟩ := Nat.exists_eq_succ_of_ne_zero subnormal
    rw [if_neg (by omega), e_eq]
    calc (2 ^ 23 + 2 ^ 13 * (half.toNat % 2 ^ 10)) * 2 ^ (e.succ + 112 - 1)
        = (2 ^ 10 + half.toNat % 2 ^ 10) * (2 ^ 13 * 2 ^ (e + 112)) := by
          rw [show 2 ^ 23 = 2 ^ 13 * 2 ^ 10 by decide, ← Nat.mul_add, Nat.mul_assoc,
            Nat.mul_left_comm]
          rfl
      _ = (2 ^ 10 + half.toNat % 2 ^ 10) * 2 ^ (e.succ - 1) * 2 ^ 125 := by
          rw [Nat.mul_assoc, ← Nat.pow_add, ← Nat.pow_add, Nat.succ_sub_one]
          congr 2
          omega

/-- Cutting undoes widening. -/
theorem f32ToHalfTrunc_halfToF32 (number : isNan32 (halfToF32 half) = false) :
    f32ToHalfTrunc (halfToF32 half) = half := by
  have small := half.isLt
  by_cases normal : half.toNat / 2 ^ 10 % 2 ^ 5 = 0
  · obtain ⟨sign, mantissa, fields, _⟩ := eq_fields_of_subnormal normal
    have cut := (halfToF32_subnormal sign mantissa).1
    rwa [← fields] at cut
  have widened := halfToF32_toNat rfl normal
  by_cases infinite : half.toNat / 2 ^ 10 % 2 ^ 5 = 31
  · rw [if_pos infinite] at widened
    simp only [isNan32, widened, decide_eq_false_iff_not] at number
    have signed : half.toNat = 0x7c00 ∨ half.toNat = 0xfc00 := by omega
    rcases signed with plus | minus
    · obtain rfl : half = 0x7c00#16 := BitVec.eq_of_toNat_eq plus
      rfl
    · obtain rfl : half = 0xfc00#16 := BitVec.eq_of_toNat_eq minus
      rfl
  · rw [if_neg infinite] at widened
    have exponent : (halfToF32 half).toNat / 2 ^ 23 % 2 ^ 8 =
        half.toNat / 2 ^ 10 % 2 ^ 5 + 112 := by
      rw [widened]
      omega
    rw [← BitVec.toNat_inj, f32ToHalfTrunc_toNat exponent (by omega) (by omega), widened]
    omega

/-- A half is given for a single that is a number exactly when it widens to the single, which
is the same number. -/
theorem f32ToHalfExact_iff
    (number : isNan32 bits = false)
    (half : BitVec 16) :
    (f32ToHalfExact bits = some half ↔ halfToF32 half = bits) ∧
      Widens half (halfToF32 half) := by
  refine ⟨?_, widens_halfToF32 half⟩
  simp only [f32ToHalfExact]
  constructor
  · intro found
    split at found
    · cases found
      assumption
    · cases found
  · rintro rfl
    rw [f32ToHalfTrunc_halfToF32 number, if_pos rfl]

/-- The least positive half, which is subnormal, widens to the single `2⁻²⁴`. -/
theorem f32ToHalfExact_least :
    f32ToHalfExact 0x33800000#32 = some 1#16 ∧ Widens 1#16 0x33800000#32 := by
  have widened : halfToF32 1#16 = 0x33800000#32 := by decide
  have number : isNan32 0x33800000#32 = false := by decide
  obtain ⟨given, widens⟩ := f32ToHalfExact_iff number 1#16
  rw [widened] at widens
  exact ⟨given.mpr widened, widens⟩

end DaemonNode.Canonical
