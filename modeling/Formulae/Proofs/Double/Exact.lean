import Formulae.Proofs.Double.Nearest

namespace Formulae

namespace Double

open Float.Model
open Float.Model.UnpackedFloat

def signed (negative : Bool) (q : ℚ) : ℚ := if negative then -q else q

/-- The number that a finite double is. -/
def toRat? (x : Float) : Option ℚ :=
  match view x with
  | .finite negative m k => some (signed negative (magnitude m k))
  | _ => none

section

variable {negative : Bool} {q r : ℚ} {m k : Nat} {x : Float}

theorem toRat?_of_finite (hv : view x = .finite negative m k) :
    toRat? x = some (signed negative (magnitude m k)) := by
  rw [toRat?, hv]

theorem toRat?_eq_some_iff :
    toRat? x = some q ↔
      ∃ negative m k, view x = .finite negative m k ∧ q = signed negative (magnitude m k) := by
  constructor
  · intro h
    unfold toRat? at h
    split at h
    next hv => cases h; exact ⟨_, _, _, hv, rfl⟩
    next => cases h
  · rintro ⟨negative, m, k, hv, rfl⟩
    exact toRat?_of_finite hv

theorem abs_signed (negative : Bool) (q : ℚ) : |signed negative q| = |q| := by
  cases negative
  · rfl
  · exact abs_neg q

theorem signed_eq_zero_iff : signed negative q = 0 ↔ q = 0 := by
  cases negative
  · rfl
  · exact neg_eq_zero

theorem signed_sub (negative : Bool) (q r : ℚ) :
    signed negative q - signed negative r = signed negative (q - r) := by
  cases negative
  · rfl
  · exact (neg_sub' q r).symm

theorem signed_neg_iff (hq : 0 < q) : signed negative q < 0 ↔ negative = true := by
  cases negative
  · simp [signed, hq.le]
  · simp [signed, hq]

theorem magnitude_eq (m k : Nat) : magnitude m k = (m * 2 ^ k : Nat) / unit := by
  rw [magnitude, cast_unit]
  push_cast
  rfl

theorem magnitude_pos (hm : 0 < m) (k : Nat) : 0 < magnitude m k := by
  unfold magnitude
  positivity

theorem magnitude_zero (k : Nat) : magnitude 0 k = 0 := by
  rw [magnitude, Nat.cast_zero, zero_mul, zero_div]

theorem magnitude_eq_zero_iff : magnitude m k = 0 ↔ m = 0 := by
  rcases Nat.eq_zero_or_pos m with rfl | hm
  · exact iff_of_true (magnitude_zero k) rfl
  · exact iff_of_false (magnitude_pos hm k).ne' hm.ne'

theorem negative_iff (hv : view x = .finite negative m k) (hx : toRat? x = some q) (hq : q ≠ 0) :
    negative = true ↔ q < 0 := by
  rw [toRat?_of_finite hv, Option.some_inj] at hx
  subst hx
  have hm : m ≠ 0 := mt (fun h => signed_eq_zero_iff.2 (magnitude_eq_zero_iff.2 h)) hq
  exact (signed_neg_iff (magnitude_pos (Nat.pos_of_ne_zero hm) k)).symm

theorem magnitude_of_le_unit (m : Nat) (h : k ≤ 1074) : magnitude m k ≤ m := by
  have h2 : (2 : ℚ) ^ k ≤ 2 ^ 1074 := pow_le_pow_right₀ one_le_two h
  rw [magnitude, div_le_iff₀ (by positivity)]
  exact mul_le_mul_of_nonneg_left h2 (Nat.cast_nonneg m)

theorem magnitude_add_unit (m k : Nat) : magnitude m (1074 + k) = (m * 2 ^ k : Nat) := by
  rw [magnitude, pow_add, mul_left_comm, mul_div_cancel_left₀ _ (by positivity)]
  push_cast
  rfl

theorem view_ne_infinity (hx : toRat? x = some q) : view x ≠ .infinity negative := by
  obtain ⟨_, _, _, hv, -⟩ := toRat?_eq_some_iff.1 hx
  rw [hv]
  nofun

theorem index_of_finite (h : view x = .finite negative m k) :
    x.toBits.toNat % 2 ^ 63 = k * 2 ^ 52 + m := by
  simp only [view] at h
  split_ifs at h with hn hi
  cases h
  exact (finite_index (Nat.lt_of_le_of_ne (Nat.not_lt.1 hn) hi)).2.symm

theorem compare_zero_of_finite (h : view x = .finite negative m k) :
    x.toModel.unpack.compare (.zero .positive) =
      some (if m = 0 then .eq else if negative then .lt else .gt) := by
  have hi := index_of_finite h
  obtain ⟨hf, -⟩ := finite_of_view h
  have hn : ¬ @isNaNBits .binary64 x.toBits.toBitVec := by
    rw [isNaNBits_iff]
    exact Nat.not_lt.2 (Nat.le_trans (Nat.le_of_eq hi) hf.index_le)
  have hm : x.toBits.toNat % 2 ^ 63 = 0 ↔ m = 0 := by
    have := hf.le
    omega
  have hs : (2 ^ 63 ≤ x.toBits.toNat) ↔ negative = true := by
    rw [← isNegative_of_finite h]
    exact decide_eq_true_iff.symm
  have hc := compare_zero_of_bits _ hn
  rw [show x.toBits.toBitVec.toNat = x.toBits.toNat from rfl] at hc
  simp only [hm, hs] at hc
  exact hc

theorem compare_zero_of_toRat? (h : toRat? x = some q) :
    x.toModel.unpack.compare (.zero .positive) = some (cmp q 0) := by
  obtain ⟨negative, m, k, hv, rfl⟩ := toRat?_eq_some_iff.1 h
  rw [compare_zero_of_finite hv, Option.some_inj, eq_comm]
  split_ifs with hm hs
  · rw [hm, magnitude_zero, signed_eq_zero_iff.2 rfl, cmp_self_eq_eq]
  · rw [cmp_eq_lt_iff, hs]
    exact neg_lt_zero.2 (magnitude_pos (Nat.pos_of_ne_zero hm) k)
  · rw [cmp_eq_gt_iff, Bool.eq_false_of_not_eq_true hs]
    exact magnitude_pos (Nat.pos_of_ne_zero hm) k

theorem lt_zero_iff (h : toRat? x = some q) : x < 0 ↔ q < 0 := by
  rw [← cmp_eq_lt_iff, ← Option.some_inj, ← compare_zero_of_toRat? h, ← beq_iff_eq]
  exact decide_eq_true_iff

theorem beq_zero_iff (h : toRat? x = some q) : (x == 0) = true ↔ q = 0 := by
  change (x.toModel.unpack.compare (.zero .positive) == some Ordering.eq) = true ↔ _
  rw [beq_iff_eq, compare_zero_of_toRat? h, Option.some_inj, cmp_eq_eq_iff]

end

section

variable {negative : Bool} {num den m k r e : Nat} {n : ℤ} {x : Float}

theorem isNegative_nearest (negative : Bool) (num den : Nat) :
    isNegative (nearest negative num den) = negative :=
  isNegative_ofIndex negative (Nat.min_le_left _ _)

theorem exists_finite (hr : r < 2 ^ 53) (he : e ≤ 2045) :
    ∃ m k, Finite m k ∧ m * 2 ^ k = r * 2 ^ e := by
  induction e generalizing r with
  | zero => exact ⟨r, 0, ⟨hr, nofun, Nat.zero_le _⟩, rfl⟩
  | succ e ih =>
    by_cases hm : 2 ^ 52 ≤ r
    · exact ⟨r, e + 1, ⟨hr, fun _ => hm, he⟩, rfl⟩
    · obtain ⟨m, k, hf, h⟩ := @ih (r * 2) (by omega) (by omega)
      exact ⟨m, k, hf, by rw [h, pow_succ', Nat.mul_assoc]⟩

theorem nearest_of_finite (hf : Finite m k) (hd : 0 < den) (h : num * unit = m * 2 ^ k * den)
    (negative : Bool) : nearest negative num den = ofIndex negative (k * 2 ^ 52 + m) := by
  refine Decimal.nearest_of_covers hf hd (Decimal.Interval.covers_of_eq_value ?_) negative
  have hd : (den : ℚ) ≠ 0 := Nat.cast_ne_zero.2 hd.ne'
  have h : (num * unit : ℚ) = m * 2 ^ k * den := by exact_mod_cast h
  change _ = ((4 * m * 2 ^ k : Nat) : ℚ)
  rw [Decimal.Interval.denominator_eq, Nat.cast_mul, mul_left_comm, div_mul_eq_mul_div, h,
    mul_div_cancel_right₀ _ hd]
  push_cast
  ring

theorem nearest_of_lt (hr : r < 2 ^ 53) (he : e ≤ 2045) (negative : Bool) :
    ∃ m k, view (nearest negative (r * 2 ^ e) unit) = .finite negative m k ∧
      magnitude m k = magnitude r e := by
  obtain ⟨m, k, hf, h⟩ := exists_finite hr he
  refine ⟨m, k, ?_, by rw [magnitude_eq, magnitude_eq, h]⟩
  rw [nearest_of_finite hf unit_pos (by rw [h]), view_of_finite negative hf]

theorem toInt?_of_finite (hv : view x = .finite negative m k) :
    toInt? x = if m * 2 ^ k % unit = 0 then
      let n : Int := (m * 2 ^ k / unit : Nat)
      some (if negative then -n else n) else none := by
  unfold toInt? unit
  rw [hv]
  exact Eq.refl _

theorem toInt?_eq_some_iff : toInt? x = some n ↔ toRat? x = some (n : ℚ) := by
  cases hv : view x with
  | nan => simp only [toInt?, toRat?, hv, reduceCtorEq]
  | infinity negative => simp only [toInt?, toRat?, hv, reduceCtorEq]
  | finite negative m k =>
    rw [toInt?_of_finite hv, toRat?_of_finite hv, magnitude_eq]
    have hu := unit_pos
    generalize m * 2 ^ k = N, unit = u at hu
    have hu' : (u : ℚ) ≠ 0 := Nat.cast_ne_zero.2 hu.ne'
    by_cases h : N % u = 0
    · obtain ⟨j, rfl⟩ := Nat.dvd_of_mod_eq_zero h
      rw [if_pos h, Nat.mul_div_cancel_left j hu, Nat.cast_mul, mul_div_cancel_left₀ _ hu',
        Option.some_inj, Option.some_inj]
      cases negative
      · change (j : ℤ) = n ↔ (j : ℚ) = n
        exact_mod_cast Iff.rfl
      · change -(j : ℤ) = n ↔ -(j : ℚ) = n
        exact_mod_cast Iff.rfl
    · rw [if_neg h]
      refine iff_of_false nofun fun hn => h (Nat.mod_eq_zero_of_dvd ⟨n.natAbs, ?_⟩)
      have hn : |(N / u : ℚ)| = |(n : ℚ)| := by rw [← abs_signed negative, Option.some_inj.1 hn]
      rw [abs_of_nonneg (by positivity), div_eq_iff hu', ← Int.cast_abs, Int.abs_eq_natAbs,
        mul_comm] at hn
      exact_mod_cast hn

end

end Double

end Formulae
