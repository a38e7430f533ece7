import Formulae.Decimal.Shortest
import Formulae.Proofs.Double.Bits

namespace Formulae

namespace Double

structure Finite (m k : Nat) : Prop where
  lt : m < 2 ^ 53
  le : 0 < k → 2 ^ 52 ≤ m
  shift_le : k ≤ 2045

theorem Finite.index_le (h : Finite m k) : k * 2 ^ 52 + m ≤ infinityIndex := by
  obtain ⟨hm, -, hk⟩ := h
  rw [infinityIndex, Nat.pow_eq]
  omega

theorem finite_index (h : i < infinityIndex) :
    Finite (significandOf i) (shiftOf i) ∧ shiftOf i * 2 ^ 52 + significandOf i = i := by
  simp only [infinityIndex, Nat.pow_eq] at h
  simp only [significandOf, shiftOf, Nat.pow_eq]
  by_cases hi : i < 2 ^ 52
  · rw [if_pos hi]
    have hs : i / 2 ^ 52 = 0 := Nat.div_eq_of_lt hi
    exact ⟨⟨by omega, by omega, by omega⟩, by omega⟩
  · rw [if_neg hi]
    have hs : 1 ≤ i / 2 ^ 52 := by omega
    exact ⟨⟨by omega, by omega, by omega⟩, by omega⟩

theorem finite_of_view (h : view x = .finite negative m k) :
    Finite m k ∧ ofIndex negative (k * 2 ^ 52 + m) = x := by
  have hx := ofIndex_index x
  simp only [view] at h
  split_ifs at h with hn hi
  cases h
  obtain ⟨hf, he⟩ := finite_index (Nat.lt_of_le_of_ne (Nat.not_lt.1 hn) hi)
  refine ⟨hf, ?_⟩
  rw [he]
  exact hx

theorem eq_infinity_of_view (h : view x = .infinity negative) : x = infinity negative := by
  have hx := ofIndex_index x
  simp only [view] at h
  split_ifs at h with hn hi
  cases h
  rw [infinity, ← hi]
  exact hx.symm

theorem isNegative_of_finite (h : view x = .finite negative m k) : isNegative x = negative := by
  simp only [view] at h
  split_ifs at h
  cases h
  rfl

theorem isNegative_of_infinity (h : view x = .infinity negative) : isNegative x = negative := by
  simp only [view] at h
  split_ifs at h
  cases h
  rfl

theorem roundHalfEven_eq {num den m : Nat} (hd : 0 < den) (hlo : 2 * m * den ≤ 2 * num + den)
    (hhi : 2 * num ≤ 2 * m * den + den)
    (hodd : m % 2 = 1 → 2 * m * den < 2 * num + den ∧ 2 * num < 2 * m * den + den) :
    roundHalfEven num den = m := by
  have hn := Nat.div_add_mod num den
  have hr := Nat.mod_lt num hd
  rw [roundHalfEven]
  generalize num / den = q at *
  generalize num % den = r at *
  have hle : m < q + 2 := by
    by_contra hm
    have : (q + 2) * den ≤ m * den := Nat.mul_le_mul_right den (Nat.not_lt.1 hm)
    nlinarith
  have hge : q ≤ m := by
    by_contra hm
    have : (m + 1) * den ≤ q * den := Nat.mul_le_mul_right den (Nat.not_le.1 hm)
    nlinarith
  obtain rfl | rfl : m = q ∨ m = q + 1 := by omega
  · have hhalf : 2 * r ≤ den := by nlinarith
    have hne : m % 2 = 1 → 2 * r ≠ den := fun h => by
      have := (hodd h).2
      nlinarith
    split_ifs <;> omega
  · have hhalf : den ≤ 2 * r := by nlinarith
    have hne : (q + 1) % 2 = 1 → 2 * r ≠ den := fun h => by
      have := (hodd h).1
      nlinarith
    split_ifs <;> omega

def unit : Nat := Nat.pow 2 1074

theorem unit_pos : 0 < unit := by decide +kernel

theorem shiftFor_def (num den : Nat) : shiftFor num den = (num * unit / den).log2 - 52 := by
  unfold shiftFor unit
  exact Eq.refl _

theorem nearestIndex_def (num den : Nat) : nearestIndex num den =
    min infinityIndex (shiftFor num den * Nat.pow 2 52 +
      roundHalfEven (num * unit) (den * Nat.pow 2 (shiftFor num den))) := by
  unfold nearestIndex unit
  exact Eq.refl _

section

variable {num den m k : Nat}

theorem log2_sub_eq {n : Nat} (hlt : n < 2 ^ (53 + k)) (hle : 0 < k → 2 ^ (52 + k) ≤ n) :
    n.log2 - 52 = k := by
  rcases Nat.eq_zero_or_pos k with rfl | hk
  · rcases Nat.eq_zero_or_pos n with rfl | hn
    · rfl
    · have := (Nat.log2_lt hn.ne').2 hlt
      omega
  · have hne : n ≠ 0 := Nat.ne_of_gt (Nat.lt_of_lt_of_le (Nat.two_pow_pos _) (hle hk))
    have hlog : n.log2 = 52 + k :=
      (Nat.log2_eq_iff hne).2 ⟨hle hk, by rwa [Nat.add_right_comm]⟩
    omega

theorem shiftFor_eq (hd : 0 < den) (hlt : num * unit < 2 ^ (53 + k) * den)
    (hle : 0 < k → 2 ^ (52 + k) * den ≤ num * unit) : shiftFor num den = k := by
  rw [shiftFor_def]
  exact log2_sub_eq ((Nat.div_lt_iff_lt_mul hd).2 hlt) fun hk =>
    (Nat.le_div_iff_mul_le hd).2 (hle hk)

theorem nearestIndex_eq (hs : shiftFor num den = k)
    (hr : roundHalfEven (num * unit) (den * 2 ^ k) = m)
    (hi : k * 2 ^ 52 + m ≤ infinityIndex) : nearestIndex num den = k * 2 ^ 52 + m := by
  subst hs hr
  rw [nearestIndex_def]
  exact Nat.min_eq_right hi

end

end Double

namespace Decimal.Interval

open Double (unit)

theorem denominator_eq : denominator = 4 * unit := by decide +kernel

variable {num den m k : Nat}

theorem bounds_of_contains (h : (ofFinite m k).contains den (num * denominator)) :
    (ofFinite m k).low * den ≤ 4 * (num * unit) ∧
      4 * (num * unit) ≤ (4 * m + 2) * 2 ^ k * den ∧
      (m % 2 = 1 → (ofFinite m k).low * den < 4 * (num * unit) ∧
        4 * (num * unit) < (4 * m + 2) * 2 ^ k * den) := by
  rw [contains, denominator_eq, Nat.mul_left_comm] at h
  split at h
  next hc =>
    simp only [Bool.and_eq_true, decide_eq_true_eq] at h
    have hc : m % 2 = 0 := by simpa [ofFinite] using hc
    exact ⟨h.1, h.2, by omega⟩
  next =>
    simp only [Bool.and_eq_true, decide_eq_true_eq] at h
    exact ⟨h.1.le, h.2.le, fun _ => h⟩

theorem low_eq (m k : Nat) : (ofFinite m k).low =
    if m = 2 ^ 52 ∧ 0 < k then (4 * m - 1) * 2 ^ k else (4 * m - 2) * 2 ^ k := rfl

theorem le_low_add (m k : Nat) : 4 * m * 2 ^ k ≤ (ofFinite m k).low + 2 * 2 ^ k := by
  rw [low_eq]
  split_ifs <;> rw [← Nat.add_mul] <;> exact Nat.mul_le_mul_right _ (by omega)

end Decimal.Interval

namespace Double

open Decimal.Interval

variable {num den m k : Nat}

/-- Below a power of two the shift is one less, but the significand is rounded up to that power. -/
theorem nearestIndex_of_below (hk : k + 1 ≤ 2045) (hd : 0 < den)
    (hlo : (2 ^ 54 - 1) * 2 ^ (k + 1) * den ≤ 4 * (num * unit))
    (hhi : num * unit < 2 ^ (52 + (k + 1)) * den) :
    nearestIndex num den = k * 2 ^ 52 + 2 ^ 53 := by
  have hp := Nat.mul_pos (Nat.two_pow_pos k) hd
  have hlo : (2 ^ 54 - 1) * (den * 2 ^ k) ≤ 2 * (num * unit) := by
    have : (2 ^ 54 - 1) * 2 ^ (k + 1) * den = 2 * ((2 ^ 54 - 1) * (den * 2 ^ k)) := by ring
    omega
  have hhi : num * unit < 2 ^ 53 * (den * 2 ^ k) := by
    have : 2 ^ (52 + (k + 1)) * den = 2 ^ 53 * (den * 2 ^ k) := by ring
    omega
  have hs : shiftFor num den = k := by
    refine shiftFor_eq hd ?_ fun _ => ?_
    · calc num * unit < 2 ^ 53 * (den * 2 ^ k) := hhi
        _ = 2 ^ (53 + k) * den := by ring
    · have : 2 ^ (52 + k) * den = 2 ^ 52 * (den * 2 ^ k) := by ring
      omega
  refine nearestIndex_eq hs (roundHalfEven_eq (by positivity) ?_ ?_ (by omega)) ?_
  · omega
  · omega
  · rw [infinityIndex, Nat.pow_eq]
    omega

theorem nearestIndex_of_contains (hf : Finite m k) (hd : 0 < den)
    (h : (ofFinite m k).contains den (num * denominator)) :
    nearestIndex num den = k * 2 ^ 52 + m := by
  obtain ⟨hlo, hhi, hodd⟩ := bounds_of_contains h
  have hi := hf.index_le
  obtain ⟨hm, hle, hk⟩ := hf
  -- below a power of two the numbers have the shift of the double before it
  by_cases hb : (m = 2 ^ 52 ∧ 0 < k) ∧ num * unit < 2 ^ (52 + k) * den
  · obtain ⟨⟨rfl, hk0⟩, hb⟩ := hb
    obtain ⟨j, rfl⟩ : ∃ j, k = j + 1 := ⟨k - 1, by omega⟩
    rw [low_eq, if_pos ⟨rfl, hk0⟩] at hlo
    rw [nearestIndex_of_below hk hd hlo hb]
    omega
  · have hp : 0 < den * 2 ^ k := by positivity
    have hlow : 4 * (m * (den * 2 ^ k)) ≤ (ofFinite m k).low * den + 2 * (den * 2 ^ k) := by
      have := Nat.mul_le_mul_right den (le_low_add m k)
      linarith
    have hhigh : (4 * m + 2) * 2 ^ k * den = 4 * (m * (den * 2 ^ k)) + 2 * (den * 2 ^ k) := by ring
    rw [hhigh] at hhi hodd
    have hs : shiftFor num den = k := by
      refine shiftFor_eq hd ?_ fun hk0 => ?_
      · have hmul : m * (den * 2 ^ k) ≤ (2 ^ 53 - 1) * (den * 2 ^ k) :=
          Nat.mul_le_mul_right _ (by omega)
        rw [show 2 ^ (53 + k) * den = 2 ^ 53 * (den * 2 ^ k) by ring]
        omega
      · rw [show 2 ^ (52 + k) * den = 2 ^ 52 * (den * 2 ^ k) by ring] at hb ⊢
        by_cases hm0 : m = 2 ^ 52
        · exact Nat.not_lt.1 fun ha => hb ⟨⟨hm0, hk0⟩, ha⟩
        · have hmul : (2 ^ 52 + 1) * (den * 2 ^ k) ≤ m * (den * 2 ^ k) :=
            Nat.mul_le_mul_right _ (by have := hle hk0; omega)
          omega
    refine nearestIndex_eq hs (roundHalfEven_eq hp ?_ ?_ fun h => ?_) hi
    · rw [Nat.mul_assoc]
      omega
    · rw [Nat.mul_assoc]
      omega
    · rw [Nat.mul_assoc]
      have := hodd h
      omega

end Double

end Formulae
