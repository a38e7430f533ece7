import Formulae.Evaluation
import Formulae.Proofs.Double.Remainder

namespace Formulae

namespace Double

def OddInteger (q : ℚ) : Prop := ∃ n : ℤ, Odd n ∧ q = n

instance : DecidablePred OddInteger := fun q =>
  decidable_of_iff (q.den = 1 ∧ Odd q.num) <| by
    constructor
    · rintro ⟨hd, ho⟩
      exact ⟨q.num, ho, (Rat.coe_int_num_of_den_eq_one hd).symm⟩
    · rintro ⟨n, ho, rfl⟩
      exact ⟨Rat.den_intCast n, ho⟩

def HasPower (p q : ℚ) : Prop := 0 < p ∨ ∃ n : ℤ, q = n

instance (p q : ℚ) : Decidable (HasPower p q) :=
  decidable_of_iff (0 < p ∨ q.den = 1) <| or_congr_right <| by
    constructor
    · exact fun h => ⟨q.num, (Rat.coe_int_num_of_den_eq_one h).symm⟩
    · rintro ⟨n, rfl⟩
      exact Rat.den_intCast n

/-- What C says of its power of two doubles. A power that is too large is infinite, with the sign of
the exact power; zero to a negative power is infinite, with its own sign if the exponent is odd; a
negative number has no power with an exponent that is no integer. -/
structure Conforms (pow : Float → Float → Float) (a b : Float) : Prop where
  overflow {p q : ℚ} {negative : Bool} : toRat? a = some p → toRat? b = some q → p ≠ 0 →
    HasPower p q → view (pow a b) = .infinity negative →
    (negative = true ↔ (p : ℝ) ^ (q : ℝ) < 0)
  zero {q : ℚ} : toRat? a = some 0 → toRat? b = some q → q < 0 →
    pow a b = infinity (isNegative a && decide (OddInteger q))
  zero_infinity : toRat? a = some 0 → view b = .infinity true → pow a b = infinity false
  domain {p q : ℚ} : toRat? a = some p → toRat? b = some q → p ≠ 0 → ¬ HasPower p q →
    pow a b = nan

/-- Where a host raises for the power of two doubles, and that its answer is the power else. For zero
to the power of negative infinity it may raise or not. -/
structure Raises (pow : Float → Float → Float) (host : Float → Float → Except PowerFailure Float)
    (a b : Float) : Prop where
  overflow : host a b = .error .overflow ↔ ∃ p q negative,
    toRat? a = some p ∧ toRat? b = some q ∧ p ≠ 0 ∧ view (pow a b) = .infinity negative
  domain : view b ≠ .infinity true → (host a b = .error .domain ↔ ∃ p q,
    toRat? a = some p ∧ toRat? b = some q ∧ (p = 0 ∧ q < 0 ∨ p ≠ 0 ∧ ¬ HasPower p q))
  domain_infinity : view b = .infinity true → host a b = .error .domain → toRat? a = some 0
  zero_infinity : view b = .infinity true → toRat? a = some 0 →
    host a b = .error .domain ∨ host a b = .ok (infinity false)
  value {r : Float} : host a b = .ok r → r = pow a b

section

variable {pow : Float → Float → Float} {host : Float → Float → Except PowerFailure Float}
  {a b x : Float} {p q : ℚ} {n : ℤ} {m k : Nat} {negative : Bool}

theorem oddInteger_intCast : OddInteger (n : ℚ) ↔ Odd n := by
  constructor
  · rintro ⟨m, hm, h⟩
    rwa [Int.cast_injective h]
  · exact fun h => ⟨n, h, rfl⟩

theorem isOddInteger_eq (hb : toRat? b = some q) : isOddInteger b = decide (OddInteger q) := by
  unfold isOddInteger
  split
  next n hn =>
    rw [toInt?_eq_some_iff, hb, Option.some_inj] at hn
    rw [decide_eq_decide, hn, oddInteger_intCast, Int.odd_iff]
  next hn =>
    refine (decide_eq_false ?_).symm
    rintro ⟨n, -, rfl⟩
    rw [toInt?_eq_some_iff.2 hb] at hn
    cases hn

theorem isOddInteger_of_infinity (hb : view b = .infinity negative) : isOddInteger b = false := by
  rw [isOddInteger, toInt?, hb]

theorem OddInteger.abs_lt (h : OddInteger q) (hx : toRat? x = some q) : |q| < 2 ^ 53 := by
  obtain ⟨negative, m, k, hv, rfl⟩ := toRat?_eq_some_iff.1 hx
  obtain ⟨n, ho, hn⟩ := h
  obtain ⟨⟨hm, -, -⟩, -⟩ := finite_of_view hv
  have habs : |signed negative (magnitude m k)| = magnitude m k := by
    rw [abs_signed, abs_of_nonneg]
    unfold magnitude
    positivity
  rcases Nat.lt_or_ge 1074 k with hk | hk
  · obtain ⟨j, rfl⟩ := Nat.exists_eq_add_of_lt hk
    rw [hn, ← Int.cast_abs, Int.abs_eq_natAbs, Int.cast_natCast, Nat.add_assoc, magnitude_add_unit,
      Nat.cast_inj] at habs
    have hodd : Odd (m * 2 ^ (j + 1)) := habs ▸ ho.natAbs
    rw [pow_succ', Nat.mul_left_comm] at hodd
    exact absurd hodd (Nat.not_odd_iff_even.2 (even_two_mul _))
  · calc |signed negative (magnitude m k)| = magnitude m k := habs
      _ ≤ m := magnitude_of_le_unit m hk
      _ < 2 ^ 53 := by exact_mod_cast hm

theorem rpow_neg_iff (hp : p ≠ 0) (h : HasPower p q) :
    (p : ℝ) ^ (q : ℝ) < 0 ↔ p < 0 ∧ OddInteger q := by
  rcases hp.lt_or_gt with hn | hpos
  · obtain ⟨n, rfl⟩ := h.resolve_left hn.not_gt
    rw [oddInteger_intCast, Rat.cast_intCast, Real.rpow_intCast]
    have hn' : (p : ℝ) < 0 := Rat.cast_lt_zero.2 hn
    constructor
    · intro h
      refine ⟨hn, Int.not_even_iff_odd.1 fun he => ?_⟩
      exact h.not_ge (he.zpow_nonneg _)
    · exact fun h => h.2.zpow_neg hn'
  · have : (0 : ℝ) < p := Rat.cast_pos.2 hpos
    exact iff_of_false (Real.rpow_pos_of_pos this _).not_gt fun h => hpos.not_gt h.1

theorem recoverPower_overflow (ha : toRat? a = some p) (hb : toRat? b = some q) :
    recoverPower a b .overflow = infinity (decide (p < 0 ∧ OddInteger q)) := by
  rw [recoverPower, isOddInteger_eq hb, Bool.decide_and, decide_eq_decide.2 (lt_zero_iff ha)]

theorem recoverPower_of_zero (ha : toRat? a = some 0) :
    recoverPower a b .domain = infinity (isNegative a && isOddInteger b) :=
  if_pos ((beq_zero_iff ha).2 rfl)

theorem recoverPower_of_ne_zero (ha : toRat? a = some p) (hp : p ≠ 0) :
    recoverPower a b .domain = nan :=
  if_neg (mt (beq_zero_iff ha).1 hp)

theorem power_of_error {failure : PowerFailure} (h : host a b = .error failure) :
    power host a b = recoverPower a b failure := by
  rw [power, h]

theorem checkedPower_of_none (h : toRat? a = none ∨ toRat? b = none) :
    checkedPower pow a b = .ok (pow a b) := by
  unfold checkedPower
  split
  next ha hb =>
    rw [toRat?_of_finite ha, toRat?_of_finite hb] at h
    cases h <;> contradiction
  next => rfl

theorem checkedPower_of_zero (pow) (ha : toRat? a = some 0) (hb : toRat? b = some q) :
    checkedPower pow a b = if q < 0 then .error .domain else .ok (pow a b) := by
  have hq := lt_zero_iff hb
  obtain ⟨_, m, k, hva, hm⟩ := toRat?_eq_some_iff.1 ha
  obtain ⟨_, _, _, hvb, -⟩ := toRat?_eq_some_iff.1 hb
  have hm : m = 0 := magnitude_eq_zero_iff.1 (signed_eq_zero_iff.1 hm.symm)
  simp only [checkedPower, hva, hvb, hm, hq, if_true]

theorem checkedPower_of_ne_zero (pow) (ha : toRat? a = some p) (hb : toRat? b = some q)
    (hp : p ≠ 0) :
    checkedPower pow a b =
      if HasPower p q then
        match view (pow a b) with
        | .infinity _ => .error .overflow
        | _ => .ok (pow a b)
      else .error .domain := by
  obtain ⟨s, m, k, hva, hsign⟩ := toRat?_eq_some_iff.1 ha
  obtain ⟨_, _, _, hvb, -⟩ := toRat?_eq_some_iff.1 hb
  have hm : m ≠ 0 := by
    rintro rfl
    exact hp (by rw [hsign, magnitude_zero, signed_eq_zero_iff])
  have hint : (toInt? b).isNone ↔ ¬ ∃ n : ℤ, q = n := by
    rw [Option.isNone_iff_eq_none, Option.eq_none_iff_forall_ne_some, not_exists]
    refine forall_congr' fun n => not_congr ?_
    rw [toInt?_eq_some_iff, hb, Option.some_inj]
  have hs : s = true ↔ ¬ 0 < p := (negative_iff hva ha hp).trans (not_lt.trans hp.le_iff_lt).symm
  have hh : (s && (toInt? b).isNone) = true ↔ ¬ HasPower p q := by
    rw [Bool.and_eq_true, hint, hs, HasPower, not_or]
  rw [checkedPower, hva, hvb]
  exact (if_neg hm).trans ((if_congr hh rfl rfl).trans (ite_not ..))

section

variable (hr : Raises pow host a b)
include hr

theorem Raises.power_of_overflow (ha : toRat? a = some p) (hb : toRat? b = some q) (hp : p ≠ 0)
    (hv : view (pow a b) = .infinity negative) :
    power host a b = infinity (decide (p < 0 ∧ OddInteger q)) := by
  rw [power_of_error (hr.overflow.2 ⟨p, q, negative, ha, hb, hp, hv⟩), recoverPower_overflow ha hb]

theorem Raises.power_of_zero (ha : toRat? a = some 0) (hb : toRat? b = some q) (hq : q < 0) :
    power host a b = infinity (isNegative a && decide (OddInteger q)) := by
  have h := (hr.domain (view_ne_infinity hb)).2 ⟨0, q, ha, hb, .inl ⟨rfl, hq⟩⟩
  rw [power_of_error h, recoverPower_of_zero ha, isOddInteger_eq hb]

theorem Raises.power_of_zero_infinity (ha : toRat? a = some 0) (hb : view b = .infinity true) :
    power host a b = infinity false := by
  rcases hr.zero_infinity hb ha with h | h
  · rw [power_of_error h, recoverPower_of_zero ha, isOddInteger_of_infinity hb, Bool.and_false]
  · rw [power, h]

theorem Raises.power_of_domain (ha : toRat? a = some p) (hb : toRat? b = some q) (hp : p ≠ 0)
    (hq : ¬ HasPower p q) : power host a b = nan := by
  have h := (hr.domain (view_ne_infinity hb)).2 ⟨p, q, ha, hb, .inr ⟨hp, hq⟩⟩
  rw [power_of_error h, recoverPower_of_ne_zero ha hp]

end

section

variable (hc : Conforms pow a b)
include hc

theorem Conforms.infinity_eq (ha : toRat? a = some p) (hb : toRat? b = some q) (hp : p ≠ 0)
    (h : view (pow a b) = .infinity negative) :
    HasPower p q ∧ negative = decide (p < 0 ∧ OddInteger q) := by
  have hpow : HasPower p q := by
    by_contra hnot
    rw [hc.domain ha hb hp hnot, view_nan] at h
    cases h
  refine ⟨hpow, ?_⟩
  rw [Bool.eq_iff_iff, decide_eq_true_iff, ← rpow_neg_iff hp hpow]
  exact hc.overflow ha hb hp hpow h

theorem Conforms.power_eq (hr : Raises pow host a b) : power host a b = pow a b := by
  cases h : host a b with
  | ok r => rw [power, h, hr.value h]
  | error failure =>
    cases failure with
    | overflow =>
      obtain ⟨p, q, negative, ha, hb, hp, hv⟩ := hr.overflow.1 h
      rw [hr.power_of_overflow ha hb hp hv, ← (hc.infinity_eq ha hb hp hv).2,
        eq_infinity_of_view hv]
    | domain =>
      by_cases hv : view b = .infinity true
      · have ha := hr.domain_infinity hv h
        rw [hr.power_of_zero_infinity ha hv, hc.zero_infinity ha hv]
      · obtain ⟨p, q, ha, hb, ⟨rfl, hq⟩ | ⟨hp, hq⟩⟩ := (hr.domain hv).1 h
        · rw [hr.power_of_zero ha hb hq, hc.zero ha hb hq]
        · rw [hr.power_of_domain ha hb hp hq, hc.domain ha hb hp hq]

theorem Conforms.raises_checkedPower : Raises pow (checkedPower pow) a b := by
  cases ha : toRat? a with
  | none =>
    have h : checkedPower pow a b = .ok (pow a b) := checkedPower_of_none (.inl ha)
    constructor <;> simp [h, ha, eq_comm]
  | some p =>
    cases hb : toRat? b with
    | none =>
      have h : checkedPower pow a b = .ok (pow a b) := checkedPower_of_none (.inr hb)
      constructor
      case zero_infinity => exact fun hv ha => .inr (by rw [h, hc.zero_infinity ha hv])
      all_goals simp [h, hb, eq_comm]
    | some q =>
      have hb' : view b ≠ .infinity true := view_ne_infinity hb
      by_cases hp : p = 0
      · subst hp
        have h := checkedPower_of_zero pow ha hb
        split_ifs at h with hq <;> constructor <;> simp [h, ha, hb, hq, hb', eq_comm]
      · have h := checkedPower_of_ne_zero pow ha hb hp
        split_ifs at h with hpow
        · split at h
          next s hv => constructor <;> simp [h, ha, hb, hp, hpow, hb', hv]
          next hv =>
            have hv (s) : view (pow a b) ≠ .infinity s := hv s
            constructor <;> simp [h, ha, hb, hp, hpow, hb', hv, eq_comm]
        · have hv (s) : view (pow a b) ≠ .infinity s := fun hv =>
            hpow (hc.infinity_eq ha hb hp hv).1
          constructor <;> simp [h, ha, hb, hp, hpow, hb', hv]

end

/-- The power never fails, and it is the power of C. What is too large is an infinity, negative for a
negative number with an odd exponent; zero to a negative power is an infinity with the sign of the
zero if the exponent is odd, else the positive one; a negative number with an exponent that is no
integer gives NaN. No number of 2 ^ 53 or more is odd. -/
theorem power_total (hr : Raises pow host a b) (hc : Conforms pow a b) :
    Value.applyBinary (.arithmetic .power) (.number a) (.number b) =
      .ok (.number (power (checkedPower Float.pow) a b)) ∧
    power host a b = pow a b ∧
    (∀ p q negative, toRat? a = some p → toRat? b = some q → p ≠ 0 →
      view (pow a b) = .infinity negative →
      power host a b = infinity (decide (p < 0 ∧ OddInteger q))) ∧
    (∀ q, toRat? a = some 0 → toRat? b = some q → q < 0 →
      power host a b = infinity (isNegative a && decide (OddInteger q))) ∧
    (toRat? a = some 0 → view b = .infinity true → power host a b = infinity false) ∧
    (∀ p q, toRat? a = some p → toRat? b = some q → p < 0 → (∀ n : ℤ, q ≠ n) →
      power host a b = nan) ∧
    ∀ q, toRat? b = some q → OddInteger q → |q| < 2 ^ 53 := by
  refine ⟨rfl, hc.power_eq hr, fun p q _ => hr.power_of_overflow, fun q => hr.power_of_zero,
    hr.power_of_zero_infinity, ?_, fun q hb ho => ho.abs_lt hb⟩
  intro p q ha hb hp hq
  refine hr.power_of_domain ha hb hp.ne ?_
  rintro (h | ⟨n, h⟩)
  · exact hp.not_gt h
  · exact hq n h

def wholePower (a b : Float) : Float :=
  match view a, toInt? b with
  | .finite negative m k, some (.ofNat n) =>
    nearest (negative && n % 2 = 1) (Nat.pow (m * Nat.pow 2 k) n) (Nat.pow unit n)
  | _, _ => nan

theorem wholePower_eq {n : Nat} (ha : view a = .finite negative m k) (hb : toRat? b = some n) :
    wholePower a b =
      nearest (negative && n % 2 = 1) (Nat.pow (m * Nat.pow 2 k) n) (Nat.pow unit n) := by
  have hn : toInt? b = some (.ofNat n) := toInt?_eq_some_iff.2 hb
  rw [wholePower, ha, hn]

theorem conforms_wholePower {n : Nat} (ha : toRat? a = some p) (hb : toRat? b = some n)
    (hp : p ≠ 0) : Conforms wholePower a b := by
  have hpow : HasPower p n := .inr ⟨n, rfl⟩
  obtain ⟨s, m, k, hva, -⟩ := toRat?_eq_some_iff.1 ha
  constructor
  case overflow =>
    intro p' q' negative ha' hb' _ _ hv
    obtain rfl : p = p' := Option.some_inj.1 (ha.symm.trans ha')
    obtain rfl : (n : ℚ) = q' := Option.some_inj.1 (hb.symm.trans hb')
    rw [rpow_neg_iff hp hpow, ← Int.cast_natCast, oddInteger_intCast, Int.odd_iff,
      ← negative_iff hva ha hp, ← isNegative_of_infinity hv, wholePower_eq hva hb, isNegative_nearest,
      Bool.and_eq_true, decide_eq_true_iff]
    norm_cast
  case zero =>
    intro _ h
    exact absurd (Option.some_inj.1 (ha.symm.trans h)) hp
  case zero_infinity =>
    intro h
    exact absurd (Option.some_inj.1 (ha.symm.trans h)) hp
  case domain =>
    intro p' q' ha' hb' _ h
    obtain rfl : p = p' := Option.some_inj.1 (ha.symm.trans ha')
    obtain rfl : (n : ℚ) = q' := Option.some_inj.1 (hb.symm.trans hb')
    exact absurd hpow h

/-- Ten with a minus sign to the power of 309, which is too large. -/
theorem power_total_of_ten :
    let a := ofIndex true 0x4024000000000000
    let b := ofIndex false 0x4073500000000000
    toRat? a = some (-10) ∧ toRat? b = some 309 ∧ Conforms wholePower a b ∧
      Raises wholePower (checkedPower wholePower) a b ∧
      power (checkedPower wholePower) a b = infinity (decide ((-10 : ℚ) < 0 ∧ OddInteger 309)) ∧
      power (checkedPower wholePower) a b = infinity true := by
  intro a b
  have ha : toRat? a = some ((-10 : ℤ) : ℚ) := toInt?_eq_some_iff.1 (by decide +kernel)
  have hb : toRat? b = some ((309 : ℕ) : ℚ) :=
    toInt?_eq_some_iff.1 (by decide +kernel : toInt? b = some (309 : ℕ))
  have hv : view (wholePower a b) = .infinity true := by decide +kernel
  have hc : Conforms wholePower a b := conforms_wholePower ha hb (by norm_num)
  have hr := hc.raises_checkedPower
  obtain ⟨-, -, hoverflow, -⟩ := power_total hr hc
  have hpower :=
    hoverflow (-10) 309 true (by exact_mod_cast ha) (by exact_mod_cast hb) (by norm_num) hv
  exact ⟨by exact_mod_cast ha, by exact_mod_cast hb, hc, hr, hpower, hpower⟩

end

end Double

end Formulae
