import Formulae.Evaluation
import Formulae.Proofs.Double.Exact

namespace Formulae

namespace Double

/-- The integer part of a number, cut off towards zero. -/
def truncate (q : ℚ) : ℤ := if 0 ≤ q then ⌊q⌋ else ⌈q⌉

theorem abs_sub_truncate_lt (q : ℚ) : |q - truncate q| < 1 := by
  unfold truncate
  split_ifs with h
  · rw [abs_lt]
    exact ⟨by linarith [Int.floor_le q], by linarith [Int.lt_floor_add_one q]⟩
  · rw [abs_lt]
    exact ⟨by linarith [Int.ceil_lt_add_one q], by linarith [Int.le_ceil q]⟩

theorem truncate_neg (q : ℚ) : truncate (-q) = -truncate q := by
  unfold truncate
  rcases lt_trichotomy q 0 with h | rfl | h
  · rw [if_pos (by linarith), if_neg (by linarith), Int.floor_neg]
  · simp
  · rw [if_neg (by linarith), if_pos h.le, Int.ceil_neg]

theorem view_nan : view nan = .nan := by decide +kernel

section

variable {a b : Float} {s s' negative : Bool} {m m' k k' e : Nat} {p q : ℚ}

theorem truncate_signed (negative : Bool) (n d : Nat) :
    (truncate (signed negative (n / d)) : ℚ) = signed negative (n / d : Nat) := by
  have h : truncate (n / d) = (n / d : Nat) := by
    rw [truncate, if_pos (by positivity), Rat.floor_natCast_div_natCast]
    rfl
  cases negative
  · change (truncate (n / d) : ℚ) = (n / d : Nat)
    rw [h, Int.cast_natCast]
  · change (truncate (-(n / d)) : ℚ) = -(n / d : Nat)
    rw [truncate_neg, h, Int.cast_neg, Int.cast_natCast]

theorem signed_div_signed (s s' : Bool) (p q : ℚ) :
    signed s p / signed s' q = signed (s ^^ s') (p / q) := by
  cases s <;> cases s' <;> simp [signed, neg_div, div_neg]

theorem signed_mul_signed (s s' : Bool) (p q : ℚ) :
    signed s' p * signed (s ^^ s') q = signed s (p * q) := by
  cases s <;> cases s' <;> simp [signed]

theorem magnitude_eq_mul (m k : Nat) : magnitude m k = m * magnitude 1 k := by
  rw [magnitude, magnitude, Nat.cast_one, one_mul, mul_div_assoc]

theorem magnitude_of_le (he : e ≤ k) (m : Nat) : magnitude (m * 2 ^ (k - e)) e = magnitude m k := by
  rw [magnitude_eq, magnitude_eq, Nat.mul_assoc, ← Nat.pow_add, Nat.sub_add_cancel he]

theorem toRat?_of_nan (h : view a = .nan) : toRat? a = none := by
  rw [toRat?, h]

theorem toRat?_of_infinity (h : view a = .infinity s) : toRat? a = none := by
  rw [toRat?, h]

theorem beq_zero_iff_toRat? (x : Float) : (x == 0) = true ↔ toRat? x = some 0 := by
  cases h : view x with
  | nan =>
    rw [toRat?_of_nan h, eq_nan_of_view h]
    exact iff_of_false (by decide +kernel) (Option.some_ne_none 0).symm
  | infinity s =>
    rw [toRat?_of_infinity h, eq_infinity_of_view h]
    exact iff_of_false (by cases s <;> decide +kernel) (Option.some_ne_none 0).symm
  | finite s m k =>
    rw [beq_zero_iff (toRat?_of_finite h), toRat?_of_finite h, Option.some_inj]

theorem isInfinite_iff : isInfinite a = true ↔ ∃ s, view a = .infinity s := by
  rw [isInfinite]
  cases view a <;> simp

theorem guarded_iff : (b == 0 || isInfinite a || isNan a || isNan b) = true ↔
    (view a = .nan ∨ ∃ s, view a = .infinity s) ∨ view b = .nan ∨ toRat? b = some 0 := by
  simp only [Bool.or_eq_true, beq_zero_iff_toRat?, isInfinite_iff, isNan, decide_eq_true_eq]
  tauto

theorem remainder_of_guarded
    (h : (view a = .nan ∨ ∃ s, view a = .infinity s) ∨ view b = .nan ∨ toRat? b = some 0) :
    remainder a b = nan :=
  dif_pos (guarded_iff.2 h)

theorem remainder_of_checked {r : Float}
    (h : ¬ ((view a = .nan ∨ ∃ s, view a = .infinity s) ∨ view b = .nan ∨ toRat? b = some 0))
    (hr : checkedRemainder a b = some r) : remainder a b = r := by
  rw [remainder, dif_neg (mt guarded_iff.1 h)]
  exact Option.get_of_eq_some _ hr

theorem remainder_of_finite (ha : view a = .finite s m k) (hb : view b = .finite s' m' k')
    (hm : m' ≠ 0) : remainder a b = nearest s
      (m * 2 ^ (k - min k k') % (m' * 2 ^ (k' - min k k')) * 2 ^ min k k') unit := by
  refine remainder_of_checked ?_ ?_
  · rw [toRat?_of_finite hb, Option.some_inj, signed_eq_zero_iff, magnitude_eq_zero_iff, ha, hb]
    simp [hm]
  · unfold checkedRemainder unit
    rw [ha, hb]
    exact if_neg hm

theorem remainder_of_infinity (ha : view a = .finite s m k) (hb : view b = .infinity s') :
    remainder a b = a := by
  refine remainder_of_checked ?_ (by rw [checkedRemainder, ha, hb])
  rw [toRat?_of_infinity hb, ha, hb]
  simp

/-- On the grid of the finer operand the remainder is below the significand of that operand. -/
theorem mod_lt_of_finite (ha : Finite m k) (hb : Finite m' k') (hm : m' ≠ 0) :
    m * 2 ^ (k - min k k') % (m' * 2 ^ (k' - min k k')) < 2 ^ 53 := by
  rcases Nat.le_total k k' with h | h
  · rw [Nat.min_eq_left h, Nat.sub_self, Nat.pow_zero, Nat.mul_one]
    exact Nat.lt_of_le_of_lt (Nat.mod_le _ _) ha.lt
  · rw [Nat.min_eq_right h, Nat.sub_self, Nat.pow_zero, Nat.mul_one]
    exact Nat.lt_trans (Nat.mod_lt _ (Nat.pos_of_ne_zero hm)) hb.lt

theorem toRat?_remainder (ha : toRat? a = some p) (hb : toRat? b = some q) (hq : q ≠ 0) :
    toRat? (remainder a b) = some (p - q * truncate (p / q)) ∧
      isNegative (remainder a b) = isNegative a := by
  obtain ⟨s, m, k, hva, rfl⟩ := toRat?_eq_some_iff.1 ha
  obtain ⟨s', m', k', hvb, rfl⟩ := toRat?_eq_some_iff.1 hb
  have hm : m' ≠ 0 := fun h => hq (signed_eq_zero_iff.2 (magnitude_eq_zero_iff.2 h))
  obtain ⟨hfa, -⟩ := finite_of_view hva
  obtain ⟨hfb, -⟩ := finite_of_view hvb
  obtain ⟨n, j, hv, hn⟩ := nearest_of_lt (mod_lt_of_finite hfa hfb hm)
    (Nat.le_trans (Nat.min_le_left k k') hfa.shift_le) s
  rw [← remainder_of_finite hva hvb hm] at hv
  refine ⟨?_, by rw [isNegative_of_finite hv, isNegative_of_finite hva]⟩
  rw [toRat?_of_finite hv, hn, ← magnitude_of_le (Nat.min_le_left k k') m,
    ← magnitude_of_le (Nat.min_le_right k k') m']
  generalize hA : m * 2 ^ (k - min k k') = A
  generalize hB : m' * 2 ^ (k' - min k k') = B
  generalize min k k' = e
  have hu := (magnitude_pos one_pos e).ne'
  have hdiv : (A : ℚ) = B * (A / B : Nat) + (A % B : Nat) := by
    exact_mod_cast (Nat.div_add_mod A B).symm
  rw [magnitude_eq_mul A, magnitude_eq_mul B, magnitude_eq_mul (A % B), signed_div_signed,
    mul_div_mul_right _ _ hu, truncate_signed, signed_mul_signed, signed_sub]
  congr 2
  rw [hdiv]
  ring

theorem view_remainder_eq_nan_iff (a b : Float) : view (remainder a b) = .nan ↔
    (view a = .nan ∨ ∃ s, view a = .infinity s) ∨ view b = .nan ∨ toRat? b = some 0 := by
  refine ⟨fun h => ?_, fun h => by rw [remainder_of_guarded h, view_nan]⟩
  by_contra hnot
  obtain ⟨ha, hb⟩ := not_or.1 hnot
  obtain ⟨hbn, hb0⟩ := not_or.1 hb
  cases hva : view a with
  | nan => exact ha (.inl hva)
  | infinity s => exact ha (.inr ⟨s, hva⟩)
  | finite s m k =>
    cases hvb : view b with
    | nan => exact hbn hvb
    | infinity s' =>
      rw [remainder_of_infinity hva hvb, hva] at h
      cases h
    | finite s' m' k' =>
      have hq : signed s' (magnitude m' k') ≠ 0 := fun h0 => hb0 (by rw [toRat?_of_finite hvb, h0])
      obtain ⟨hr, -⟩ := toRat?_remainder (toRat?_of_finite hva) (toRat?_of_finite hvb) hq
      obtain ⟨_, _, _, hv, -⟩ := toRat?_eq_some_iff.1 hr
      rw [hv] at h
      cases h

end

/-- The remainder of two numbers is NaN if the first is no finite number or the second is zero or
NaN, and the first itself if the second is infinite. Else it is exact: what is left of the first
when the second is taken off as often as it fits, with the sign of the first also where it is zero. -/
theorem remainder_exact (a b : Float) :
    Value.applyBinary (.arithmetic .remainder) (.number a) (.number b) =
      .ok (.number (remainder a b)) ∧
    (view (remainder a b) = .nan ↔
      (view a = .nan ∨ ∃ s, view a = .infinity s) ∨ view b = .nan ∨ toRat? b = some 0) ∧
    (∀ p s, toRat? a = some p → view b = .infinity s → remainder a b = a) ∧
    ∀ p q, toRat? a = some p → toRat? b = some q → q ≠ 0 → ∃ r,
      toRat? (remainder a b) = some r ∧ r = p - q * truncate (p / q) ∧ |r| < |q| ∧
      (∃ n : ℤ, (p - r) / q = n) ∧ isNegative (remainder a b) = isNegative a := by
  refine ⟨rfl, view_remainder_eq_nan_iff a b, ?_, ?_⟩
  · intro p s ha hb
    obtain ⟨_, _, _, hv, -⟩ := toRat?_eq_some_iff.1 ha
    exact remainder_of_infinity hv hb
  · intro p q ha hb hq
    obtain ⟨hr, hs⟩ := toRat?_remainder ha hb hq
    refine ⟨_, hr, rfl, ?_, ⟨truncate (p / q), ?_⟩, hs⟩
    · calc |p - q * truncate (p / q)| = |q| * |p / q - truncate (p / q)| := by
            rw [← abs_mul, mul_sub, mul_div_cancel₀ _ hq]
        _ < |q| * 1 := mul_lt_mul_of_pos_left (abs_sub_truncate_lt _) (abs_pos.2 hq)
        _ = |q| := mul_one _
    · rw [sub_sub_cancel, mul_div_cancel_left₀ _ hq]

/-- The greatest double with a minus sign, by three times the least one and by infinity. The quotient
has more than two thousand bits. -/
theorem remainder_exact_of_greatest :
    let a := ofIndex true (infinityIndex - 1)
    let b := ofIndex false 3
    let p := -magnitude (2 ^ 53 - 1) 2045
    let q := magnitude 3 0
    toRat? a = some p ∧ toRat? b = some q ∧ q ≠ 0 ∧ remainder a (infinity false) = a ∧
      remainder a b = ofIndex true 2 ∧
      ∃ r, toRat? (remainder a b) = some r ∧ r = p - q * truncate (p / q) ∧ |r| < |q| ∧
        (∃ n : ℤ, (p - r) / q = n) ∧ isNegative (remainder a b) = isNegative a := by
  intro a b p q
  have hva : view a = .finite true (2 ^ 53 - 1) 2045 := by decide +kernel
  have hvb : view b = .finite false 3 0 := by decide +kernel
  have ha : toRat? a = some p := toRat?_of_finite hva
  have hb : toRat? b = some q := toRat?_of_finite hvb
  have hq : q ≠ 0 := (magnitude_pos three_pos 0).ne'
  obtain ⟨-, -, hinfinite, hfinite⟩ := remainder_exact a b
  obtain ⟨-, -, hinfinite, -⟩ := remainder_exact a (infinity false)
  exact ⟨ha, hb, hq, hinfinite p false ha (view_infinity false), by decide +kernel,
    hfinite p q ha hb hq⟩

end Double

end Formulae
