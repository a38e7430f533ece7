import Formulae.Decimal.Numeral
import Formulae.Proofs.Double.Rounding

namespace Formulae

namespace Decimal

def value (d : Decimal) : ℚ := d.coefficient * 10 ^ d.exponent

theorem zpow_eq_div (e : Int) : (10 : ℚ) ^ e = 10 ^ e.toNat / 10 ^ (-e).toNat := by
  rw [← zpow_natCast, ← zpow_natCast, ← zpow_sub₀ (by norm_num)]
  congr 1
  omega

theorem cast_of_eq_two_pow {a n : Nat} (h : a = Nat.pow 2 n) : (a : ℚ) = 2 ^ n := by
  rw [h, Nat.pow_eq, Nat.cast_pow, Nat.cast_ofNat]

namespace Interval

def Covers (i : Interval) (q : ℚ) : Prop :=
  if i.closed then i.low ≤ q * denominator ∧ q * denominator ≤ i.high
  else i.low < q * denominator ∧ q * denominator < i.high

variable {i : Interval} {q : ℚ} {m k : Nat}

theorem Covers.bounds (h : i.Covers q) : i.low ≤ q * denominator ∧ q * denominator ≤ i.high := by
  unfold Covers at h
  split at h
  next => exact h
  next => exact ⟨h.1.le, h.2.le⟩

theorem covers_of_between (hlo : i.low < q * denominator) (hhi : q * denominator < i.high) :
    i.Covers q := by
  unfold Covers
  split
  next => exact ⟨hlo.le, hhi.le⟩
  next => exact ⟨hlo, hhi⟩

theorem contains_iff {scale n : Nat} (hs : 0 < scale) :
    i.contains scale (n * denominator) ↔ i.Covers (n / scale) := by
  have hs : (0 : ℚ) < scale := Nat.cast_pos.2 hs
  unfold contains Covers
  rw [div_mul_eq_mul_div, le_div_iff₀ hs, div_le_iff₀ hs, lt_div_iff₀ hs, div_lt_iff₀ hs]
  split
  next =>
    rw [Bool.and_eq_true, decide_eq_true_eq, decide_eq_true_eq]
    norm_cast
  next =>
    rw [Bool.and_eq_true, decide_eq_true_eq, decide_eq_true_eq]
    norm_cast

theorem low_le_value (m k : Nat) : (ofFinite m k).low ≤ (ofFinite m k).value := by
  rw [low_eq]
  split_ifs <;> exact Nat.mul_le_mul_right _ (by omega)

theorem low_lt_value (hm : 0 < m) (k : Nat) : (ofFinite m k).low < (ofFinite m k).value := by
  rw [low_eq]
  split_ifs <;> exact Nat.mul_lt_mul_of_pos_right (by omega) (Nat.two_pow_pos k)

theorem value_lt_high (m k : Nat) : (ofFinite m k).value < (ofFinite m k).high :=
  Nat.mul_lt_mul_of_pos_right (Nat.lt_add_of_pos_right two_pos) (Nat.two_pow_pos k)

theorem covers_of_eq_value (h : q * denominator = (ofFinite m k).value) :
    (ofFinite m k).Covers q := by
  have hhigh : ((ofFinite m k).value : ℚ) < (ofFinite m k).high := Nat.cast_lt.2 (value_lt_high m k)
  rcases Nat.eq_zero_or_pos m with rfl | hm
  · have hlow : ((ofFinite 0 k).low : ℚ) ≤ (ofFinite 0 k).value :=
      Nat.cast_le.2 (low_le_value 0 k)
    unfold Covers
    rw [if_pos (show (ofFinite 0 k).closed = true from rfl), h]
    exact ⟨hlow, hhigh.le⟩
  · have hlow : ((ofFinite m k).low : ℚ) < (ofFinite m k).value :=
      Nat.cast_lt.2 (low_lt_value hm k)
    exact covers_of_between (by rwa [h]) (by rwa [h])

theorem covers_natCast {n : Nat} (h : n * Double.unit = m * 2 ^ k) : (ofFinite m k).Covers n := by
  refine covers_of_eq_value ?_
  have hq : n * denominator = 4 * m * 2 ^ k := by
    rw [denominator_eq, Nat.mul_left_comm, h, Nat.mul_assoc]
  exact_mod_cast hq

theorem high_lt (hf : Double.Finite m k) : (ofFinite m k).high < 10 ^ 401 * denominator := by
  have hm : 4 * m + 2 ≤ 2 ^ 55 := by
    have := hf.lt
    omega
  calc (4 * m + 2) * 2 ^ k ≤ 2 ^ 55 * 2 ^ 2045 :=
        Nat.mul_le_mul hm (Nat.pow_le_pow_right (by decide) hf.shift_le)
    _ < 10 ^ 401 * denominator := by decide +kernel

theorem two_le_low (hm : 0 < m) : 2 ≤ (ofFinite m k).low := by
  have hk := Nat.two_pow_pos k
  rw [low_eq]
  split_ifs
  · exact Nat.mul_le_mul (show 2 ≤ 4 * m - 1 by omega) hk
  · exact Nat.mul_le_mul (show 2 ≤ 4 * m - 2 by omega) hk

end Interval

open Decimal.Interval

variable {d : Decimal} {m k : Nat}

theorem value_eq_div (d : Decimal) : d.value =
    (d.coefficient * 10 ^ d.exponent.toNat : Nat) / (10 ^ (-d.exponent).toNat : Nat) := by
  rw [value, zpow_eq_div]
  push_cast
  ring

theorem le_value (hc : d.coefficient ≠ 0) (he : 400 < d.exponent) : 10 ^ 401 ≤ d.value := by
  have hc : (1 : ℚ) ≤ d.coefficient := Nat.one_le_cast.2 (Nat.pos_of_ne_zero hc)
  have hp : (10 : ℚ) ^ (401 : Int) ≤ 10 ^ d.exponent :=
    zpow_le_zpow_right₀ (by norm_num) (by omega)
  calc (10 : ℚ) ^ 401 = 1 * 10 ^ (401 : Int) := by rw [one_mul, zpow_ofNat]
    _ ≤ d.value := mul_le_mul hc hp (by positivity) (by positivity)

theorem value_lt (he : d.exponent < -(400 + d.coefficient.log2 : Nat)) :
    d.value * 10 ^ 401 < 2 := by
  have hc : d.coefficient < 2 * 10 ^ d.coefficient.log2 := by
    calc d.coefficient < 2 ^ (d.coefficient.log2 + 1) := Nat.lt_log2_self
      _ = 2 * 2 ^ d.coefficient.log2 := by rw [Nat.pow_succ, Nat.mul_comm]
      _ ≤ 2 * 10 ^ d.coefficient.log2 :=
        Nat.mul_le_mul_left 2 (Nat.pow_le_pow_left (by decide) _)
  have hc : (d.coefficient : ℚ) < 2 * 10 ^ (d.coefficient.log2 : Int) := by exact_mod_cast hc
  have hp : (10 : ℚ) ^ d.exponent * 10 ^ (401 : Int) ≤ 10 ^ (-d.coefficient.log2 : Int) := by
    rw [← zpow_add₀ (by norm_num)]
    exact zpow_le_zpow_right₀ (by norm_num) (by omega)
  calc d.value * 10 ^ 401 = d.coefficient * (10 ^ d.exponent * 10 ^ (401 : Int)) := by
        rw [value, mul_assoc, zpow_ofNat]
    _ ≤ d.coefficient * 10 ^ (-d.coefficient.log2 : Int) :=
        mul_le_mul_of_nonneg_left hp (Nat.cast_nonneg _)
    _ < 2 * 10 ^ (d.coefficient.log2 : Int) * 10 ^ (-d.coefficient.log2 : Int) :=
        mul_lt_mul_of_pos_right hc (by positivity)
    _ = 2 := by
        rw [mul_assoc, ← zpow_add₀ (by norm_num), add_neg_cancel, zpow_zero, mul_one]

theorem denominator_lt : denominator < 10 ^ 401 := by decide +kernel

/-- Where a quotient is read as a double, it is the one whose interval the quotient is in. -/
theorem nearest_of_covers {num den : Nat} (hf : Double.Finite m k) (hd : 0 < den)
    (h : (ofFinite m k).Covers (num / den)) (negative : Bool) :
    Double.nearest negative num den = Double.ofIndex negative (k * 2 ^ 52 + m) := by
  rw [Double.nearest, Double.nearestIndex_of_contains hf hd ((contains_iff hd).2 h)]

theorem eq_zero_of_covers (hf : Double.Finite m k) (h : (ofFinite m k).Covers q)
    (hq : q * denominator < 2) : k * 2 ^ 52 + m = 0 := by
  obtain rfl : m = 0 := by
    by_contra hm
    have hl : (2 : ℚ) ≤ (ofFinite m k).low := by exact_mod_cast two_le_low (Nat.pos_of_ne_zero hm)
    exact absurd (hl.trans h.bounds.1) (not_le.2 hq)
  have hk := hf.le
  omega

theorem toFloat_of_covers (hf : Double.Finite m k) (h : (ofFinite m k).Covers d.value)
    (negative : Bool) : d.toFloat negative = Double.ofIndex negative (k * 2 ^ 52 + m) := by
  have hden : (0 : ℚ) ≤ denominator := Nat.cast_nonneg _
  unfold toFloat
  split_ifs with hc hbig hsmall
  · have hv : d.value * denominator < 2 := by
      rw [value, hc, Nat.cast_zero, zero_mul, zero_mul]
      exact two_pos
    rw [eq_zero_of_covers hf h hv, Double.zero]
  · have hv := mul_le_mul_of_nonneg_right (le_value hc hbig) hden
    have hh : ((ofFinite m k).high : ℚ) < 10 ^ 401 * denominator := by
      exact_mod_cast high_lt hf
    exact absurd (hv.trans h.bounds.2) (not_le.2 hh)
  · have hn : 0 ≤ d.value := by
      unfold value
      positivity
    have hv : d.value * denominator ≤ d.value * 10 ^ 401 :=
      mul_le_mul_of_nonneg_left (by exact_mod_cast denominator_lt.le) hn
    rw [eq_zero_of_covers hf h (hv.trans_lt (value_lt hsmall)), Double.zero]
  · rw [value_eq_div] at h
    exact nearest_of_covers hf (Nat.pow_pos (by decide)) h negative

end Decimal

end Formulae
