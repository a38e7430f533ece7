import Formulae.Proofs.Decimal.Value

namespace Formulae

open Decimal (Interval cast_of_eq_two_pow)
open Decimal.Interval (ofFinite denominator denominator_eq)

namespace Double

open Float.Model
open Float.Model.UnpackedFloat

theorem toBits_ofBits {b : UInt64} (h : ¬ @isNaNBits .binary64 b.toBitVec) :
    (Float.ofBits b).toBits = b := by
  apply UInt64.toBitVec_inj.1
  change UnpackedFloat.pack .binary64 (UnpackedFloat.unpack .binary64 b.toBitVec) = _
  rw [pack_unpack, if_neg h]

section

variable (negative : Bool) {i m k : Nat}

theorem toNat_ofIndex (hi : i ≤ infinityIndex) :
    (ofIndex negative i).toBits.toNat = i + if negative then 2 ^ 63 else 0 := by
  have hi' : i < 2 ^ 63 := by
    rw [infinityIndex, Nat.pow_eq] at hi
    omega
  have hb : (UInt64.ofNat (i + if negative then 2 ^ 63 else 0)).toNat =
      i + if negative then 2 ^ 63 else 0 := by
    rw [UInt64.toNat_ofNat']
    split <;> omega
  rw [ofIndex, Nat.pow_eq, toBits_ofBits, hb]
  rw [isNaNBits_iff, UInt64.toNat_toBitVec, hb]
  split <;> omega

theorem isNegative_ofIndex (hi : i ≤ infinityIndex) : isNegative (ofIndex negative i) = negative := by
  rw [isNegative, toNat_ofIndex negative hi, Nat.pow_eq]
  rw [infinityIndex, Nat.pow_eq] at hi
  cases negative <;> simp
  all_goals omega

theorem view_ofIndex (hi : i ≤ infinityIndex) : view (ofIndex negative i) =
    if i = infinityIndex then .infinity negative
    else .finite negative (significandOf i) (shiftOf i) := by
  have hs : decide (Nat.pow 2 63 ≤ (ofIndex negative i).toBits.toNat) = negative :=
    isNegative_ofIndex negative hi
  have hm : (ofIndex negative i).toBits.toNat % Nat.pow 2 63 = i := by
    rw [toNat_ofIndex negative hi, Nat.pow_eq]
    rw [infinityIndex, Nat.pow_eq] at hi
    split <;> omega
  simp only [view, hs, hm]
  rw [if_neg (Nat.not_lt.2 hi)]

theorem view_infinity : view (infinity negative) = .infinity negative := by
  rw [infinity, view_ofIndex negative (Nat.le_refl _), if_pos rfl]

end

section

variable {m k : Nat}

theorem Finite.index_lt (h : Finite m k) : k * 2 ^ 52 + m < infinityIndex := by
  obtain ⟨hm, -, hk⟩ := h
  rw [infinityIndex, Nat.pow_eq]
  omega

theorem Finite.significandOf_index (h : Finite m k) : significandOf (k * 2 ^ 52 + m) = m := by
  obtain ⟨hm, hle, -⟩ := h
  simp only [significandOf, Nat.pow_eq]
  split <;> omega

theorem Finite.shiftOf_index (h : Finite m k) : shiftOf (k * 2 ^ 52 + m) = k := by
  obtain ⟨hm, hle, -⟩ := h
  simp only [shiftOf, Nat.pow_eq]
  omega

theorem view_of_finite (negative : Bool) (h : Finite m k) :
    view (ofIndex negative (k * 2 ^ 52 + m)) = .finite negative m k := by
  rw [view_ofIndex negative h.index_le, if_neg h.index_lt.ne, h.significandOf_index,
    h.shiftOf_index]

end

def magnitude (m k : Nat) : ℚ := m * 2 ^ k / 2 ^ 1074

def overflow : ℚ := 2 ^ 1024 - 2 ^ 970

/-- No finite double is closer to a number, and one that is as close has an odd significand only if
this one has an even one. -/
structure Nearest (q : ℚ) (m k : Nat) : Prop where
  finite : Finite m k
  lt : q < overflow
  le : ∀ m' k', Finite m' k' → |magnitude m k - q| ≤ |magnitude m' k' - q|
  even : ∀ m' k', Finite m' k' → magnitude m k ≠ magnitude m' k' →
    |magnitude m k - q| = |magnitude m' k' - q| → m % 2 = 0

/-- The double that a number with a sign in front is rounded to. The sign of a zero or an infinity is
kept. -/
inductive Rounds (negative : Bool) (q : ℚ) (x : Float) : Prop
  | finite (hv : view x = .finite negative m k) (hn : Nearest q m k)
  | infinite (hv : view x = .infinity negative) (hq : overflow ≤ q)

def span (i : Nat) : Interval := ofFinite (significandOf i) (shiftOf i)

def magnitudeAt (i : Nat) : ℚ := magnitude (significandOf i) (shiftOf i)

/-- From one double to the next: the significand grows by one, and from the greatest one it goes back
to the least one with the next shift. -/
theorem index_succ_cases (i : Nat) :
    (significandOf (i + 1) = significandOf i + 1 ∧ shiftOf (i + 1) = shiftOf i ∧
      (significandOf (i + 1) = 2 ^ 52 → shiftOf (i + 1) = 0)) ∨
    (significandOf i = 2 ^ 53 - 1 ∧ significandOf (i + 1) = 2 ^ 52 ∧
      shiftOf (i + 1) = shiftOf i + 1) := by
  simp only [significandOf, shiftOf, Nat.pow_eq]
  split <;> split <;> omega

theorem significandOf_mod_two (i : Nat) : significandOf i % 2 = i % 2 := by
  simp only [significandOf, Nat.pow_eq]
  split <;> omega

theorem value_span_succ (i : Nat) : (span (i + 1)).value = (span i).value + 4 * 2 ^ shiftOf i := by
  change 4 * _ * 2 ^ _ = 4 * _ * 2 ^ _ + 4 * 2 ^ shiftOf i
  obtain ⟨hm, hk, -⟩ | ⟨hm, hm', hk⟩ := index_succ_cases i
  · rw [hm, hk]
    ring
  · rw [hm, hm', hk, pow_succ]
    omega

theorem high_span (i : Nat) : (span i).high = (span i).value + 2 * 2 ^ shiftOf i :=
  Nat.add_mul _ _ _

theorem low_span_succ (i : Nat) : (span (i + 1)).low = (span i).high := by
  change (ofFinite _ _).low = (4 * _ + 2) * 2 ^ _
  rw [Interval.low_eq]
  obtain ⟨hm, hk, h0⟩ | ⟨hm, hm', hk⟩ := index_succ_cases i
  · rw [if_neg (by omega), hm, hk]
    rfl
  · rw [if_pos ⟨hm', by omega⟩, hm, hm', hk, pow_succ]
    omega

theorem closed_span_iff (i : Nat) : (span i).closed ↔ i % 2 = 0 := by
  rw [← significandOf_mod_two]
  exact decide_eq_true_iff

theorem denominator_pos : (0 : ℚ) < denominator := by
  rw [denominator_eq]
  exact_mod_cast Nat.mul_pos (by decide) unit_pos

theorem cast_unit : (unit : ℚ) = 2 ^ 1074 := cast_of_eq_two_pow (by decide +kernel)

theorem magnitude_mul_denominator (m k : Nat) :
    magnitude m k * denominator = (ofFinite m k).value := by
  have hu : (unit : ℚ) ≠ 0 := Nat.cast_ne_zero.2 unit_pos.ne'
  change _ = ((4 * m * 2 ^ k : Nat) : ℚ)
  rw [magnitude, ← cast_unit, denominator_eq]
  push_cast
  field_simp

def midpoint (i : Nat) : ℚ := (magnitudeAt i + magnitudeAt (i + 1)) / 2

theorem high_span_eq (i : Nat) : ((span i).high : ℚ) = midpoint i * denominator := by
  have hv : ((span (i + 1)).value : ℚ) = (span i).value + 4 * 2 ^ shiftOf i := by
    exact_mod_cast value_span_succ i
  have hh : ((span i).high : ℚ) = (span i).value + 2 * 2 ^ shiftOf i := by
    exact_mod_cast high_span i
  rw [span] at hv
  rw [midpoint, div_mul_eq_mul_div, add_mul, magnitudeAt, magnitudeAt, magnitude_mul_denominator,
    magnitude_mul_denominator, hh, hv, span]
  ring

theorem magnitudeAt_lt_succ (i : Nat) : magnitudeAt i < magnitudeAt (i + 1) := by
  refine lt_of_mul_lt_mul_right ?_ denominator_pos.le
  rw [magnitudeAt, magnitudeAt, magnitude_mul_denominator, magnitude_mul_denominator]
  have hp := Nat.two_pow_pos (shiftOf i)
  exact Nat.cast_lt.2 (by have := value_span_succ i; rw [span, span] at this; omega)

theorem strictMono_magnitudeAt : StrictMono magnitudeAt :=
  strictMono_nat_of_lt_succ magnitudeAt_lt_succ

theorem midpoint_lt {i j : Nat} (h : i < j) : midpoint i < midpoint j := by
  have h' := strictMono_magnitudeAt h
  have h'' := strictMono_magnitudeAt (Nat.succ_lt_succ h)
  rw [midpoint, midpoint]
  linarith

theorem midpoint_last : midpoint (infinityIndex - 1) = overflow := by
  refine mul_right_cancel₀ denominator_pos.ne' ?_
  rw [← high_span_eq]
  have cast {h a b d : Nat} (hle : b ≤ a) (hh : h = (Nat.pow 2 a - Nat.pow 2 b) * d) :
      (h : ℚ) = (2 ^ a - 2 ^ b) * d := by
    have hp : Nat.pow 2 b ≤ Nat.pow 2 a := Nat.pow_le_pow_right (by decide) hle
    rw [hh, Nat.cast_mul, Nat.cast_sub hp, cast_of_eq_two_pow rfl, cast_of_eq_two_pow rfl]
  rw [overflow]
  exact cast (by decide) (by decide +kernel)

def Reaches (i : Nat) (q : ℚ) : Prop := if i % 2 = 0 then q ≤ midpoint i else q < midpoint i

section

variable {q : ℚ} {i j m k : Nat}

theorem Reaches.le (h : Reaches i q) : q ≤ midpoint i := by
  unfold Reaches at h
  split at h
  · exact h
  · exact h.le

theorem le_of_not_reaches (h : ¬ Reaches i q) : midpoint i ≤ q := by
  unfold Reaches at h
  split at h
  · exact (not_le.1 h).le
  · exact not_lt.1 h

theorem reaches_midpoint_iff : Reaches i (midpoint i) ↔ i % 2 = 0 := by
  unfold Reaches
  split <;> simp [*]

theorem reaches_of_le (h : q ≤ midpoint i) (he : q = midpoint i → i % 2 = 0) : Reaches i q := by
  unfold Reaches
  split
  next => exact h
  next hi => exact lt_of_le_of_ne h fun h' => hi (he h')

theorem not_reaches_of_le (h : midpoint i ≤ q) (ho : q = midpoint i → (i + 1) % 2 = 0) :
    ¬ Reaches i q := by
  intro hr
  obtain rfl := le_antisymm hr.le h
  have := reaches_midpoint_iff.1 hr
  have := ho rfl
  omega

theorem covers_span_zero : (span 0).Covers q ↔ 0 ≤ q ∧ Reaches 0 q := by
  have hl : (span 0).low = 0 := rfl
  rw [Interval.Covers, if_pos ((closed_span_iff 0).2 rfl), hl, high_span_eq, Nat.cast_zero,
    mul_le_mul_iff_of_pos_right denominator_pos, mul_nonneg_iff_of_pos_right denominator_pos,
    Reaches, if_pos rfl]

theorem covers_span_succ : (span (i + 1)).Covers q ↔ ¬ Reaches i q ∧ Reaches (i + 1) q := by
  have hd := denominator_pos
  rw [Interval.Covers, low_span_succ, high_span_eq, high_span_eq, Reaches, Reaches]
  rcases Nat.mod_two_eq_zero_or_one i with hi | hi
  · rw [if_neg (by rw [closed_span_iff]; omega), if_pos hi, if_neg (by omega), not_le,
      mul_lt_mul_iff_of_pos_right hd, mul_lt_mul_iff_of_pos_right hd]
  · rw [if_pos (by rw [closed_span_iff]; omega), if_neg (by omega), if_pos (by omega), not_lt,
      mul_le_mul_iff_of_pos_right hd, mul_le_mul_iff_of_pos_right hd]

theorem reaches_of_covers (h : (span i).Covers q) : Reaches i q := by
  cases i with
  | zero => exact (covers_span_zero.1 h).2
  | succ i => exact (covers_span_succ.1 h).2

theorem exists_covers (hq : 0 ≤ q) (h : q < overflow) : ∃ i < infinityIndex, (span i).Covers q := by
  classical
  have hi : infinityIndex = infinityIndex - 1 + 1 := rfl
  have hlast : Reaches (infinityIndex - 1) q := by
    rw [← midpoint_last] at h
    rw [Reaches, if_neg (by decide)]
    exact h
  have hex : ∃ i, Reaches i q := ⟨_, hlast⟩
  refine ⟨Nat.find hex, ?_, ?_⟩
  · rw [hi]
    exact Nat.lt_succ_of_le (Nat.find_min' hex hlast)
  · have hr := Nat.find_spec hex
    cases hf : Nat.find hex with
    | zero => exact covers_span_zero.2 ⟨hq, hf ▸ hr⟩
    | succ i => exact covers_span_succ.2 ⟨Nat.find_min hex (hf ▸ Nat.lt_succ_self i), hf ▸ hr⟩

theorem Reaches.mono (h : Reaches i q) (hij : i ≤ j) : Reaches j q := by
  rcases Nat.lt_or_eq_of_le hij with hij | rfl
  · have hlt := h.le.trans_lt (midpoint_lt hij)
    exact reaches_of_le hlt.le fun he => absurd he hlt.ne
  · exact h

theorem covers_unique (hi : (span i).Covers q) (hj : (span j).Covers q) : i = j := by
  have le {i j : Nat} (hi : (span i).Covers q) (hj : (span j).Covers q) : j ≤ i := by
    cases j with
    | zero => exact Nat.zero_le i
    | succ j =>
      have hn := (covers_span_succ.1 hj).1
      exact Nat.lt_of_not_le fun h => hn ((reaches_of_covers hi).mono h)
  exact Nat.le_antisymm (le hj hi) (le hi hj)

theorem closer_above_iff {a b x : ℚ} (h : a < b) : |a - x| ≤ |b - x| ↔ x ≤ (a + b) / 2 := by
  rw [← sq_le_sq]
  constructor <;> intro h' <;> nlinarith

theorem closer_below_iff {a b x : ℚ} (h : a < b) : |b - x| ≤ |a - x| ↔ (a + b) / 2 ≤ x := by
  rw [← sq_le_sq]
  constructor <;> intro h' <;> nlinarith

theorem equally_close_iff {a b x : ℚ} (h : a ≠ b) : |a - x| = |b - x| ↔ x = (a + b) / 2 := by
  rw [abs_eq_abs]
  constructor
  · rintro (h' | h')
    · exact absurd (sub_left_injective h') h
    · linarith
  · rintro rfl
    exact .inr (by ring)

theorem closest_of_covers (h : (span i).Covers q) (j : Nat) :
    |magnitudeAt i - q| ≤ |magnitudeAt j - q| ∧
      (i ≠ j → |magnitudeAt i - q| = |magnitudeAt j - q| → i % 2 = 0) := by
  rcases lt_trichotomy i j with hij | rfl | hij
  · have hr := reaches_of_covers h
    have hle : midpoint i ≤ (magnitudeAt i + magnitudeAt j) / 2 := by
      have := strictMono_magnitudeAt.monotone (Nat.succ_le_of_lt hij)
      rw [midpoint]
      linarith
    refine ⟨(closer_above_iff (strictMono_magnitudeAt hij)).2 (hr.le.trans hle), fun _ he => ?_⟩
    rw [equally_close_iff (strictMono_magnitudeAt hij).ne] at he
    obtain rfl : q = midpoint i := le_antisymm hr.le (hle.trans he.ge)
    exact reaches_midpoint_iff.1 hr
  · exact ⟨le_rfl, fun hne => absurd rfl hne⟩
  · obtain ⟨i, rfl⟩ := Nat.exists_eq_succ_of_ne_zero (Nat.ne_zero_of_lt hij)
    have hr := (covers_span_succ.1 h).1
    have hle : (magnitudeAt j + magnitudeAt (i + 1)) / 2 ≤ midpoint i := by
      have := strictMono_magnitudeAt.monotone (Nat.le_of_lt_succ hij)
      rw [midpoint]
      linarith
    refine ⟨(closer_below_iff (strictMono_magnitudeAt hij)).2 (hle.trans (le_of_not_reaches hr)),
      fun _ he => ?_⟩
    rw [eq_comm, equally_close_iff (strictMono_magnitudeAt hij).ne] at he
    obtain rfl : q = midpoint i := le_antisymm (he.le.trans hle) (le_of_not_reaches hr)
    rw [reaches_midpoint_iff] at hr
    omega

theorem Finite.magnitudeAt_index (h : Finite m k) :
    magnitudeAt (k * 2 ^ 52 + m) = magnitude m k := by
  rw [magnitudeAt, h.significandOf_index, h.shiftOf_index]

theorem Finite.span_index (h : Finite m k) : span (k * 2 ^ 52 + m) = ofFinite m k := by
  rw [span, h.significandOf_index, h.shiftOf_index]

theorem covers_of_closest (hq : 0 ≤ q) (hlt : q < overflow) (hi : i < infinityIndex)
    (hle : ∀ j < infinityIndex, |magnitudeAt i - q| ≤ |magnitudeAt j - q|)
    (heven : ∀ j < infinityIndex, i ≠ j → |magnitudeAt i - q| = |magnitudeAt j - q| → i % 2 = 0) :
    (span i).Covers q := by
  have hr : Reaches i q := by
    by_cases hs : i + 1 < infinityIndex
    · have ha := magnitudeAt_lt_succ i
      refine reaches_of_le ((closer_above_iff ha).1 (hle _ hs)) fun he => ?_
      exact heven _ hs (Nat.succ_ne_self i).symm ((equally_close_iff ha.ne).2 he)
    · obtain rfl : i = infinityIndex - 1 := by omega
      rw [← midpoint_last] at hlt
      exact reaches_of_le hlt.le fun he => absurd he hlt.ne
  cases i with
  | zero => exact covers_span_zero.2 ⟨hq, hr⟩
  | succ i =>
    have ha := magnitudeAt_lt_succ i
    have hs := Nat.lt_of_succ_lt hi
    refine covers_span_succ.2 ⟨not_reaches_of_le ((closer_below_iff ha).1 (hle _ hs)) fun he => ?_, hr⟩
    exact heven _ hs (Nat.succ_ne_self i) ((equally_close_iff ha.ne).2 he).symm

theorem lt_overflow_of_covers (hi : i < infinityIndex) (h : (span i).Covers q) : q < overflow := by
  have hr := reaches_of_covers h
  rw [← midpoint_last]
  rcases Nat.lt_or_eq_of_le (Nat.le_sub_one_of_lt hi) with hi | rfl
  · exact hr.le.trans_lt (midpoint_lt hi)
  · rwa [Reaches, if_neg (by decide)] at hr

theorem nearest_iff_covers (hq : 0 ≤ q) (hf : Finite m k) :
    Nearest q m k ↔ (ofFinite m k).Covers q := by
  have hi := hf.index_lt
  have hm : m % 2 = (k * 2 ^ 52 + m) % 2 := by omega
  rw [← hf.span_index]
  constructor
  · intro h
    refine covers_of_closest hq h.lt hi (fun j hj => ?_) fun j hj hne he => ?_
    · rw [hf.magnitudeAt_index]
      exact h.le _ _ (finite_index hj).1
    · rw [← hm]
      have hne := strictMono_magnitudeAt.injective.ne hne
      rw [hf.magnitudeAt_index] at hne he
      exact h.even _ _ (finite_index hj).1 hne he
  · intro h
    refine ⟨hf, lt_overflow_of_covers hi h, fun m' k' hf' => ?_, fun m' k' hf' hne he => ?_⟩
    · rw [← hf.magnitudeAt_index, ← hf'.magnitudeAt_index]
      exact (closest_of_covers h _).1
    · rw [← hf.magnitudeAt_index, ← hf'.magnitudeAt_index] at hne he
      rw [hm]
      exact (closest_of_covers h _).2 (fun h => hne (congrArg magnitudeAt h)) he

end

theorem le_roundHalfEven {num den m : Nat} (hd : 0 < den) (hm : m % 2 = 0)
    (h : 2 * m * den ≤ 2 * num + den) : m ≤ roundHalfEven num den := by
  have hn := Nat.div_add_mod num den
  have hr := Nat.mod_lt num hd
  rw [roundHalfEven]
  generalize num / den = q at *
  generalize num % den = r at *
  have hle : m ≤ q + 1 := by
    by_contra hm
    have : (q + 2) * den ≤ m * den := Nat.mul_le_mul_right den (Nat.not_le.1 hm)
    nlinarith
  rcases Nat.lt_or_eq_of_le hle with hlt | rfl
  · split_ifs <;> omega
  · have hhalf : den ≤ 2 * r := by nlinarith
    split_ifs <;> omega

theorem nearestIndex_of_overflow {num den j : Nat} (hd : 0 < den) (hj : 2044 ≤ j)
    (h : (2 ^ 54 - 1) * 2 ^ j * den ≤ num * unit) : nearestIndex num den = infinityIndex := by
  have hn : (2 ^ 54 - 1) * 2 ^ j ≤ num * unit / den := (Nat.le_div_iff_mul_le hd).2 h
  have hn0 : num * unit / den ≠ 0 :=
    Nat.ne_of_gt (Nat.lt_of_lt_of_le (Nat.mul_pos (by decide) (Nat.two_pow_pos _)) hn)
  have hl : 53 + j ≤ (num * unit / den).log2 := by
    refine (Nat.le_log2 hn0).2 (le_trans ?_ hn)
    rw [Nat.pow_add]
    exact Nat.mul_le_mul_right _ (by decide)
  have hself := (Nat.le_div_iff_mul_le hd).1 (Nat.log2_self_le hn0)
  rw [nearestIndex_def, shiftFor_def, infinityIndex]
  generalize (num * unit / den).log2 = l at *
  obtain ⟨k, rfl⟩ : ∃ k, l = 52 + k := ⟨l - 52, by omega⟩
  rw [Nat.add_sub_cancel_left, Nat.pow_eq, Nat.pow_eq]
  refine Nat.min_eq_left ?_
  have hp : 0 < den * 2 ^ k := Nat.mul_pos hd (Nat.two_pow_pos k)
  -- with the shift of the greatest doubles the significand is rounded up to a power of two
  by_cases hk : 2046 ≤ k
  · have hr : 2 ^ 52 ≤ roundHalfEven (num * unit) (den * 2 ^ k) := by
      refine le_roundHalfEven hp (by decide) ?_
      have : 2 ^ (52 + k) * den = 2 ^ 52 * (den * 2 ^ k) := by ring
      omega
    omega
  · obtain rfl : k = j + 1 := by omega
    have hr : 2 ^ 53 ≤ roundHalfEven (num * unit) (den * 2 ^ (j + 1)) := by
      refine le_roundHalfEven hp (by decide) ?_
      have h2 : (2 ^ 54 - 1) * (den * 2 ^ (j + 1)) ≤ 2 * (num * unit) := by
        calc (2 ^ 54 - 1) * (den * 2 ^ (j + 1)) = 2 * ((2 ^ 54 - 1) * 2 ^ j * den) := by
              rw [Nat.pow_succ]
              ring
          _ ≤ 2 * (num * unit) := Nat.mul_le_mul_left 2 h
      generalize den * 2 ^ (j + 1) = x at *
      clear h hself hn hl
      omega
    generalize roundHalfEven (num * unit) (den * 2 ^ (j + 1)) = r at *
    clear h hself hn hl
    omega

theorem overflow_eq : overflow = (2 ^ 54 - 1) * 2 ^ 970 := by
  rw [overflow, show 1024 = 54 + 970 from rfl, pow_add, sub_mul, one_mul]

theorem one_le_overflow : 1 ≤ overflow := by
  rw [overflow_eq]
  exact one_le_mul_of_one_le_of_one_le (by norm_num) (one_le_pow₀ (by norm_num))

theorem nearestIndex_of_le_div {num den : Nat} (hd : 0 < den) (h : overflow ≤ num / den) :
    nearestIndex num den = infinityIndex := by
  have hd' : (0 : ℚ) < den := Nat.cast_pos.2 hd
  refine nearestIndex_of_overflow hd (Nat.le_refl _) ?_
  rw [le_div_iff₀ hd', overflow_eq] at h
  have h := mul_le_mul_of_nonneg_right h (Nat.cast_nonneg unit)
  have hpow : (2 : ℚ) ^ 970 * unit = 2 ^ 2044 := by rw [cast_unit, ← pow_add]
  have hl : (2 ^ 54 - 1) * 2 ^ 970 * (den : ℚ) * unit = ((2 ^ 54 - 1) * 2 ^ 2044 * den : Nat) := by
    rw [Nat.cast_mul, Nat.cast_mul, Nat.cast_pow, Nat.cast_ofNat, ← hpow]
    generalize (2 : ℚ) ^ 970 = u at *
    push_cast
    ring
  rw [hl] at h
  exact_mod_cast h

section

variable {q : ℚ} {x y : Float} {negative : Bool}

theorem Rounds.unique (hq : 0 ≤ q) (hx : Rounds negative q x) (hy : Rounds negative q y) :
    x = y := by
  cases hx with
  | finite hv hn =>
    obtain ⟨hf, rfl⟩ := finite_of_view hv
    have hc := (nearest_iff_covers hq hf).1 hn
    cases hy with
    | finite hv' hn' =>
      obtain ⟨hf', rfl⟩ := finite_of_view hv'
      have hc' := (nearest_iff_covers hq hf').1 hn'
      rw [← hf.span_index] at hc
      rw [← hf'.span_index] at hc'
      rw [covers_unique hc hc']
    | infinite hv' ho => exact absurd hn.lt (not_lt.2 ho)
  | infinite hv ho =>
    cases hy with
    | finite hv' hn => exact absurd hn.lt (not_lt.2 ho)
    | infinite hv' ho' => rw [eq_infinity_of_view hv, eq_infinity_of_view hv']

theorem Rounds.eq_infinity_iff (h : Rounds negative q x) :
    x = infinity negative ↔ overflow ≤ q := by
  cases h with
  | finite hv hn =>
    refine iff_of_false ?_ (not_le.2 hn.lt)
    rintro rfl
    rw [view_infinity] at hv
    cases hv
  | infinite hv ho => exact iff_of_true (eq_infinity_of_view hv) ho

theorem rounds_of_covers (hq : 0 ≤ q)
    (hc : ∀ m k, Finite m k → (ofFinite m k).Covers q → x = ofIndex negative (k * 2 ^ 52 + m))
    (ho : overflow ≤ q → x = infinity negative) : Rounds negative q x := by
  rcases lt_or_ge q overflow with hlt | hge
  · obtain ⟨i, hi, h⟩ := exists_covers hq hlt
    obtain ⟨hf, -⟩ := finite_index hi
    exact .finite (by rw [hc _ _ hf h, view_of_finite negative hf]) ((nearest_iff_covers hq hf).2 h)
  · exact .infinite (by rw [ho hge, view_infinity]) hge

theorem rounds_nearest {num den : Nat} (hd : 0 < den) (negative : Bool) :
    Rounds negative (num / den) (nearest negative num den) :=
  rounds_of_covers (by positivity) (fun _ _ hf hc => Decimal.nearest_of_covers hf hd hc negative)
    fun ho => congrArg (ofIndex negative) (nearestIndex_of_le_div hd ho)

end

end Double

namespace Decimal

open Double (Rounds Nearest overflow)

theorem value_nonneg (d : Decimal) : 0 ≤ d.value := by
  unfold value
  positivity

theorem toFloat_of_overflow {d : Decimal} (h : overflow ≤ d.value) (negative : Bool) :
    d.toFloat negative = Double.infinity negative := by
  have hone := Double.one_le_overflow
  unfold toFloat
  split_ifs with hc hbig hsmall
  · have hv : d.value = 0 := by rw [value, hc, Nat.cast_zero, zero_mul]
    rw [hv] at h
    linarith
  · rfl
  · have hv := value_lt hsmall
    have hten : (10 : ℚ) ^ 1 ≤ 10 ^ 401 := pow_le_pow_right₀ (by norm_num) (by norm_num)
    generalize (10 : ℚ) ^ 401 = t at *
    nlinarith
  · have hd : 0 < Nat.pow 10 (-d.exponent).toNat := Nat.pow_pos (by decide)
    rw [value_eq_div] at h
    exact congrArg (Double.ofIndex negative) (Double.nearestIndex_of_le_div hd h)

theorem rounds_toFloat (negative : Bool) (d : Decimal) :
    Rounds negative d.value (d.toFloat negative) :=
  Double.rounds_of_covers d.value_nonneg (fun _ _ hf hc => toFloat_of_covers hf hc negative)
    fun ho => toFloat_of_overflow ho negative

theorem eq_toFloat_of_rounds {d : Decimal} (h : Rounds negative d.value x) : x = d.toFloat negative :=
  h.unique d.value_nonneg (rounds_toFloat negative d)

end Decimal

end Formulae
