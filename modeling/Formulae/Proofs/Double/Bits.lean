import Formulae.Double.Arithmetic
import Mathlib

namespace Formulae

namespace Double

open Float.Model
open Float.Model.UnpackedFloat

theorem ofIndex_index (x : Float) : ofIndex (isNegative x) (x.toBits.toNat % Nat.pow 2 63) = x := by
  have hx : x.toBits.toNat < 2 ^ 64 := x.toBits.toNat_lt
  have h : x.toBits.toNat % 2 ^ 63 + (if isNegative x then 2 ^ 63 else 0) = x.toBits.toNat := by
    simp only [isNegative, Nat.pow_eq, decide_eq_true_eq]
    split <;> omega
  rw [ofIndex, Nat.pow_eq, h, UInt64.ofNat_toNat, Float.ofBits_toBits]

section

variable (b : BitVec Format.binary64.numBits)

theorem unpackExponent_eq_iff {e : BitVec 11} (he : e.toNat = n) :
    unpackExponent b = e ↔ b.toNat / 2 ^ 52 % 2 ^ 11 = n := by
  rw [← he, unpackExponent_def, ← BitVec.toNat_inj, BitVec.extractLsb'_toNat,
    Nat.shiftRight_eq_div_pow]

theorem unpackMantissa_eq_iff : unpackMantissa b = 0#52 ↔ b.toNat % 2 ^ 52 = 0 := by
  rw [unpackMantissa_def, ← BitVec.toNat_inj, BitVec.extractLsb'_toNat, Nat.shiftRight_zero]
  rfl

theorem isNaNBits_iff : isNaNBits b ↔ infinityIndex < b.toNat % 2 ^ 63 := by
  have hb : b.toNat < 2 ^ 64 := b.isLt
  rw [infinityIndex, Nat.pow_eq]
  simp only [isNaNBits, decide_eq_true_eq]
  rw [Ne, unpackExponent_eq_iff b (Eq.refl 2047), unpackMantissa_eq_iff]
  omega

theorem ofBitVec_unpackSign :
    Sign.ofBitVec (unpackSign b) = if 2 ^ 63 ≤ b.toNat then .negative else .positive := by
  have hb : b.toNat < 2 ^ 64 := b.isLt
  have hs : unpackSign b = BitVec.ofNat 1 (b.toNat / 2 ^ 63) := by
    rw [unpackSign_def, ← BitVec.toNat_inj, BitVec.extractLsb'_toNat, Nat.shiftRight_eq_div_pow,
      BitVec.toNat_ofNat]
    rfl
  rw [hs]
  split_ifs with hn
  · rw [show b.toNat / 2 ^ 63 = 1 by omega]
    rfl
  · rw [show b.toNat / 2 ^ 63 = 0 by omega]
    rfl

theorem compare_zero_of_bits (h : ¬ isNaNBits b) :
    (UnpackedFloat.unpack .binary64 b).compare (.zero .positive) =
      some (if b.toNat % 2 ^ 63 = 0 then .eq else if 2 ^ 63 ≤ b.toNat then .lt else .gt) := by
  have hb : b.toNat < 2 ^ 64 := b.isLt
  have hzero : b.toNat % 2 ^ 63 = 0 ↔ unpackExponent b = 0#11 ∧ unpackMantissa b = 0#52 := by
    rw [unpackExponent_eq_iff b (Eq.refl 0), unpackMantissa_eq_iff]
    omega
  have hnan : unpackExponent b = -1#11 → unpackMantissa b = 0#52 := by
    intro he
    by_contra hm
    exact h (decide_eq_true ⟨he, hm⟩)
  simp only [hzero, UnpackedFloat.unpack, ofBitVec_unpackSign]
  by_cases hz : unpackExponent b = 0#11 ∧ unpackMantissa b = 0#52
  · have he : unpackExponent b ≠ -1#11 := by
      rw [hz.1]
      decide
    rw [if_pos hz, if_neg he, if_pos hz.1, dif_pos hz.2]
    split_ifs <;> rfl
  · rw [if_neg hz]
    by_cases he : unpackExponent b = -1#11
    · rw [if_pos he, if_pos (hnan he)]
      split_ifs <;> rfl
    · rw [if_neg he]
      by_cases he0 : unpackExponent b = 0#11
      · rw [if_pos he0, dif_neg fun hm => hz ⟨he0, hm⟩]
        split_ifs <;> rfl
      · rw [if_neg he0]
        split_ifs <;> rfl

end

theorem eq_nan_of_view (h : view x = .nan) : x = nan := by
  have hx : @isNaNBits .binary64 x.toBits.toBitVec := by
    rw [isNaNBits_iff]
    simp only [view, Nat.pow_eq] at h
    split_ifs at h with hi
    exact hi
  have hp := x.toModel.valid.eq_packedNaN (of_decide_eq_true hx).1 (of_decide_eq_true hx).2
  rw [← Float.ofBits_toBits x, nan]
  exact congrArg Float.ofBits (UInt64.toBitVec_inj.1 hp)

def packed (s : Sign) (i : Nat) : BitVec Format.binary64.numBits :=
  packComponents .binary64 s (BitVec.ofNat 11 (i / 2 ^ 52)) (BitVec.ofNat 52 i)

section

variable (s : Sign)

theorem toNat_packed {i : Nat} (hi : i < 2 ^ 63) :
    (packed s i).toNat = i + s.toBitVec.toNat * 2 ^ 63 := by
  rw [packed, packComponents, BitVec.toNat_append, BitVec.toNat_append,
    ← Nat.shiftLeft_add_eq_or_of_lt (BitVec.isLt _), ← Nat.shiftLeft_add_eq_or_of_lt (BitVec.isLt _),
    Nat.shiftLeft_eq, Nat.shiftLeft_eq, BitVec.toNat_ofNat, BitVec.toNat_ofNat]
  omega

theorem unpack_neg (e : BitVec 11) (m : BitVec 52) :
    UnpackedFloat.unpack .binary64 (packComponents .binary64 (-s) e m) =
      (UnpackedFloat.unpack .binary64 (packComponents .binary64 s e m)).neg := by
  simp only [UnpackedFloat.unpack, unpackSign_packComponents, unpackExponent_packComponents,
    unpackMantissa_packComponents, Sign.ofBitVec_toBitVec]
  split_ifs <;> rfl

theorem neg_ofBits {i : Nat} (h : ¬ isNaNBits (packed s i)) :
    -Float.ofBits (.ofBitVec (packed s i)) = Float.ofBits (.ofBitVec (packed (-s) i)) := by
  change Float.ofModel (Float.Model.pack (UnpackedFloat.neg (UnpackedFloat.unpack .binary64
    (UnpackedFloat.pack .binary64 (UnpackedFloat.unpack .binary64 (packed s i)))))) = _
  rw [pack_unpack, if_neg h, packed, ← unpack_neg]
  rfl

end

theorem neg_ofIndex (h : i ≤ infinityIndex) : -ofIndex false i = ofIndex true i := by
  have hi : i < 2 ^ 63 := by
    rw [infinityIndex, Nat.pow_eq] at h
    omega
  have hp : ∀ s, UInt64.ofBitVec (packed s i) = UInt64.ofNat (i + s.toBitVec.toNat * 2 ^ 63) := by
    intro s
    have hs := s.toBitVec.isLt
    apply UInt64.toNat_inj.1
    change (packed s i).toNat = _
    rw [toNat_packed s hi, UInt64.toNat_ofNat']
    omega
  have hn : ¬ isNaNBits (packed .positive i) := by
    rw [isNaNBits_iff, toNat_packed _ hi, Nat.add_mul_mod_self_right, Nat.mod_eq_of_lt hi]
    exact Nat.not_lt.2 h
  have hneg := neg_ofBits .positive hn
  rw [hp, hp] at hneg
  exact hneg

end Double

end Formulae
