import Formulae.Proofs.Decimal.Value

/-!
The shortest decimal of a double is there, and it is in the interval of the double. With seventeen
digits the multiples of a power of ten are closer to each other than the interval is wide.
-/

namespace Formulae

namespace Decimal

namespace Interval

variable {i : Interval} {e : Int} {n steps j : Nat}

theorem ten_pow_pos (n : Nat) : 0 < Nat.pow 10 n := Nat.pow_pos (by decide)

theorem contains_multiple_iff (i : Interval) (e : Int) (n : Nat) :
    i.contains (Nat.pow 10 (-e).toNat) (n * (Nat.pow 10 e.toNat * denominator)) ↔
      i.Covers (n * 10 ^ e) := by
  rw [← Nat.mul_assoc, contains_iff (ten_pow_pos _), zpow_eq_div, ← mul_div_assoc, Nat.pow_eq,
    Nat.pow_eq]
  push_cast
  rfl

theorem covers_of_onGrid (h : i.onGrid e = some n) : i.Covers (n * 10 ^ e) := by
  refine (contains_multiple_iff i e n).1 ?_
  unfold onGrid at h
  dsimp only at h
  generalize i.value * Nat.pow 10 (-e).toNat / (Nat.pow 10 e.toNat * denominator) = below at h
  split at h
  next hb ha =>
    have hor : n = below ∨ n = below + 1 := by
      split_ifs at h <;> cases h <;> omega
    rcases hor with rfl | rfl
    · exact hb
    · exact ha
  next hb _ => cases h; exact hb
  next _ ha => cases h; exact ha
  next => cases h

theorem isSome_onGrid (hle : i.low ≤ i.value) (h : 10 ^ e * denominator < (i.high - i.value : ℚ)) :
    (i.onGrid e).isSome := by
  have hs := ten_pow_pos (-e).toNat
  have hu := Nat.mul_pos (ten_pow_pos e.toNat) (show 0 < denominator by decide +kernel)
  have hgrid : (10 : ℚ) ^ e * denominator =
      (Nat.pow 10 e.toNat * denominator : Nat) / (Nat.pow 10 (-e).toNat : Nat) := by
    rw [zpow_eq_div, div_mul_eq_mul_div, Nat.pow_eq, Nat.pow_eq]
    push_cast
    rfl
  have hc : i.contains (Nat.pow 10 (-e).toNat)
      ((i.value * Nat.pow 10 (-e).toNat / (Nat.pow 10 e.toNat * denominator) + 1) *
        (Nat.pow 10 e.toNat * denominator)) := by
    refine (contains_multiple_iff i e _).2 ?_
    generalize Nat.pow 10 e.toNat * denominator = u at *
    generalize Nat.pow 10 (-e).toNat = s at *
    have hs : (0 : ℚ) < s := Nat.cast_pos.2 hs
    have hb : i.value * s / u * u ≤ i.value * s := Nat.div_mul_le_self _ _
    have ha : i.value * s < (i.value * s / u + 1) * u := Nat.lt_mul_of_div_lt (Nat.lt_succ_self _) hu
    generalize i.value * s / u = below at *
    have hb : below * (u / s : ℚ) ≤ i.value := by
      rw [← mul_div_assoc, div_le_iff₀ hs]
      exact_mod_cast hb
    have ha : i.value < (below + 1 : Nat) * (u / s : ℚ) := by
      rw [← mul_div_assoc, lt_div_iff₀ hs]
      exact_mod_cast ha
    have hle : (i.low : ℚ) ≤ i.value := Nat.cast_le.2 hle
    refine covers_of_between ?_ ?_
    · rw [mul_assoc, hgrid]
      exact hle.trans_lt ha
    · rw [mul_assoc, hgrid, Nat.cast_succ, add_one_mul]
      rw [hgrid] at h
      linarith
  by_contra hn
  rw [Bool.not_eq_true, Option.isSome_eq_false_iff, Option.isNone_iff_eq_none] at hn
  unfold onGrid at hn
  dsimp only at hn
  rw [hc] at hn
  split at hn
  next => split_ifs at hn
  next ha => cases ha
  next => cases hn
  next ha => cases ha

theorem covers_of_coarsest (h : i.coarsest e steps = some d) : i.Covers d.value := by
  induction steps generalizing e with
  | zero => cases h
  | succ steps ih =>
    rw [coarsest] at h
    split at h
    next n hn =>
      cases h
      exact covers_of_onGrid hn
    next => exact ih h

theorem isSome_coarsest (hj : j < steps) (h : (i.onGrid (e - j)).isSome) :
    (i.coarsest e steps).isSome := by
  induction steps generalizing e j with
  | zero => cases hj
  | succ steps ih =>
    rw [coarsest]
    split
    next => rfl
    next hn =>
      cases j with
      | zero =>
        rw [Int.natCast_zero, Int.sub_zero, hn] at h
        cases h
      | succ j =>
        refine ih (Nat.lt_of_succ_lt_succ hj) ?_
        rwa [Int.sub_sub, Int.add_comm, ← Int.natCast_succ]

end Interval

open Decimal.Interval

/-- A power of ten next to a power of two, from a fraction near their logarithms. -/
theorem zpow_le_zpow_of_log {p q : Nat} {t b : Int} (hlo : 2 ^ q ≤ 10 ^ p)
    (hhi : 10 ^ p ≤ 2 ^ (q + 1)) (ht : t * (q + 1 : Nat) ≤ b * p) (hb : -(q + 1 : Nat) ≤ b) :
    (10 : ℚ) ^ t ≤ 2 ^ (b + 1) := by
  have hlo : (2 : ℚ) ^ q ≤ 10 ^ p := by exact_mod_cast hlo
  have hhi : (10 : ℚ) ^ p ≤ 2 ^ (q + 1) := by exact_mod_cast hhi
  -- a negative power turns the bounds round, and only then the lower one is needed
  have hp : ((10 : ℚ) ^ p) ^ b ≤ 2 ^ ((b + 1) * (q + 1 : Nat)) := by
    rcases Int.le_total 0 b with h | h
    · lift b to Nat using h
      calc ((10 : ℚ) ^ p) ^ (b : Int) ≤ (2 ^ (q + 1)) ^ (b : Int) := by
            rw [zpow_natCast, zpow_natCast]
            exact pow_le_pow_left₀ (by positivity) hhi b
        _ = 2 ^ ((q + 1 : Nat) * (b : Int)) := by rw [zpow_mul, zpow_natCast 2]
        _ ≤ 2 ^ ((b + 1 : Int) * (q + 1 : Nat)) :=
            zpow_le_zpow_right₀ (by norm_num) (by push_cast; nlinarith)
    · obtain ⟨c, rfl⟩ : ∃ c : Nat, b = -c := ⟨b.natAbs, by omega⟩
      calc ((10 : ℚ) ^ p) ^ (-c : Int) ≤ (2 ^ q) ^ (-c : Int) := by
            rw [zpow_neg, zpow_neg, zpow_natCast, zpow_natCast]
            exact inv_anti₀ (by positivity) (pow_le_pow_left₀ (by positivity) hlo c)
        _ = 2 ^ (q * (-c : Int)) := by rw [zpow_mul, zpow_natCast 2]
        _ ≤ 2 ^ ((-c + 1 : Int) * (q + 1 : Nat)) :=
            zpow_le_zpow_right₀ (by norm_num) (by push_cast at hb ⊢; nlinarith)
  refine (pow_le_pow_iff_left₀ (by positivity) (by positivity) (Nat.succ_ne_zero q)).1 ?_
  calc ((10 : ℚ) ^ t) ^ (q + 1) = 10 ^ (t * (q + 1 : Nat)) := by rw [zpow_mul, zpow_natCast]
    _ ≤ 10 ^ (b * p) := zpow_le_zpow_right₀ (by norm_num) ht
    _ = ((10 : ℚ) ^ p) ^ b := by rw [mul_comm, zpow_mul, zpow_natCast]
    _ ≤ 2 ^ ((b + 1) * (q + 1 : Nat)) := hp
    _ = (2 ^ (b + 1)) ^ (q + 1) := by rw [zpow_mul, zpow_natCast]

variable {m k : Nat}

theorem cast_denominator : denominator = (2 : ℚ) ^ ((1076 : Nat) : Int) := by
  rw [zpow_natCast]
  exact cast_of_eq_two_pow (by decide +kernel)

theorem zpow_exponentAbove_lt (hf : Double.Finite m k) :
    (10 : ℚ) ^ (exponentAbove m k - (19 : Nat)) * denominator < 2 * 2 ^ k := by
  have hlog : m.log2 ≤ 52 := by
    rcases Nat.eq_zero_or_pos m with rfl | hm
    · decide
    · exact Nat.le_of_lt_succ ((Nat.log2_lt hm.ne').2 hf.lt)
  rw [exponentAbove]
  generalize hb : ((m.log2 + k : Nat) : Int) - 1074 = b
  have ht := Int.mul_fdiv_self_le (x := b * 1233) (k := 4096) (by decide)
  generalize Int.fdiv (b * 1233) 4096 = t at *
  -- `1233 / 4096` is just below the decimal logarithm of two
  have hpow : (10 : ℚ) ^ t ≤ 2 ^ (b + 1) :=
    zpow_le_zpow_of_log (p := 1233) (q := 4095) (by decide +kernel) (by decide +kernel)
      (by omega) (by omega)
  calc (10 : ℚ) ^ (t + 2 - (19 : Nat)) * denominator
      = 10 ^ t * denominator / 10 ^ 17 := by
        rw [show t + 2 - (19 : Nat) = t - 17 by omega, zpow_sub₀ (by norm_num), zpow_ofNat 10 17,
          div_mul_eq_mul_div]
    _ ≤ 2 ^ (b + 1) * denominator / 10 ^ 17 :=
        div_le_div_of_nonneg_right (mul_le_mul_of_nonneg_right hpow (Nat.cast_nonneg _))
          (by positivity)
    _ = 2 ^ (m.log2 + k + 3 : Int) / 10 ^ 17 := by
        rw [cast_denominator, ← zpow_add₀ (by norm_num), ← hb]
        congr 2
        omega
    _ ≤ 2 ^ (55 + k : Int) / 10 ^ 17 :=
        div_le_div_of_nonneg_right (zpow_le_zpow_right₀ (by norm_num) (by omega)) (by positivity)
    _ = 2 ^ 55 / 10 ^ 17 * 2 ^ k := by
        rw [zpow_add₀ (by norm_num), zpow_natCast, zpow_ofNat]
        ring
    _ < 2 * 2 ^ k := by
        refine mul_lt_mul_of_pos_right ?_ (by positivity)
        norm_num

/-- Every finite double has a shortest decimal, and this is in its interval. -/
theorem exists_shortest (hf : Double.Finite m k) :
    ∃ d, shortest m k = some d ∧ (ofFinite m k).Covers d.value := by
  have hgap : ((ofFinite m k).high - (ofFinite m k).value : ℚ) = 2 * 2 ^ k := by
    simp only [ofFinite, Nat.pow_eq]
    push_cast
    ring
  have hs : (shortest m k).isSome := by
    refine isSome_coarsest (show 19 < 20 by decide) (isSome_onGrid (low_le_value m k) ?_)
    rw [hgap]
    exact zpow_exponentAbove_lt hf
  obtain ⟨d, hd⟩ := Option.isSome_iff_exists.1 hs
  exact ⟨d, hd, covers_of_coarsest hd⟩

theorem value_trim (d : Decimal) : d.trim.value = d.value := by
  fun_induction trim d with
  | case1 d h ih =>
    have hc : (d.coefficient : ℚ) = (d.coefficient / 10 : Nat) * 10 := by
      have : d.coefficient = d.coefficient / 10 * 10 := by omega
      exact_mod_cast this
    rw [ih, value, value, zpow_add_one₀ (by norm_num), hc]
    ring
  | case2 => rfl

end Decimal

end Formulae
