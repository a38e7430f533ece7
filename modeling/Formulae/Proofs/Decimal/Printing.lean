import Formulae.Proofs.Decimal.Numerals
import Formulae.Proofs.Decimal.Shortest
import Formulae.Proofs.Double.Exact

namespace Formulae

open Decimal.Interval (ofFinite)

namespace Double

def unsignedZero (x : Float) : Float := if x = zero true then zero false else x

theorem view_zero : view (zero true) = .finite true 0 0 := by decide +kernel

theorem unsignedZero_of_view_ne (h : view x ≠ .finite true 0 0) : unsignedZero x = x := by
  refine if_neg ?_
  rintro rfl
  exact h view_zero

variable {negative : Bool} {m k : Nat}

theorem unsignedZero_of_finite (hv : view x = .finite negative m k) :
    unsignedZero x = ofIndex (negative && decide (m ≠ 0)) (k * 2 ^ 52 + m) := by
  obtain ⟨hf, hx⟩ := finite_of_view hv
  rcases Nat.eq_zero_or_pos m with rfl | hm
  · obtain rfl : k = 0 := by
      have hk := hf.le
      omega
    subst hx
    cases negative
    · exact if_neg fun h => by rw [h, view_zero] at hv; cases hv
    · exact if_pos rfl
  · rw [unsignedZero_of_view_ne, decide_eq_true hm.ne', Bool.and_true, hx]
    intro h
    rw [hv] at h
    cases h
    exact hm.ne rfl

end Double

namespace Numeral

open Double (unit)

def signed (negative : Bool) (w : List Char) : String :=
  (if negative then "-" else "") ++ String.ofList w

variable {w : List Char} {q : ℚ} {negative : Bool} {m k : Nat}

theorem signed_false (w : List Char) : signed false w = String.ofList w := String.empty_append

theorem signed_true (w : List Char) : signed true w = String.ofList ('-' :: w) := by
  rw [← String.toList_inj, String.toList_ofList, signed, String.toList_append, String.toList_ofList]
  rfl

theorem toString_signed (negative : Bool) (n : Nat) :
    toString (if negative then -(n : Int) else n) =
      signed (negative && decide (n ≠ 0)) (Nat.toDigits 10 n) := by
  rw [Int.toString_eq_repr, Int.repr_eq_if]
  cases negative
  · simp [signed, Nat.repr_eq_ofList_toDigits]
  · rcases Nat.eq_zero_or_pos n with rfl | hn
    · rfl
    · simp [signed, Nat.repr_eq_ofList_toDigits, hn.ne']

theorem eq_zero_iff_of_mul_unit (h : n * unit = m * 2 ^ k) : n = 0 ↔ m = 0 := by
  have hu := Double.unit_pos.ne'
  have hk := (Nat.two_pow_pos k).ne'
  constructor
  · rintro rfl
    simpa [hk] using h.symm
  · rintro rfl
    simpa [hu] using h

theorem write_of_finite (hv : Double.view x = .finite negative m k) :
    ∃ w q, Spells w q ∧ (ofFinite m k).Covers q ∧
      write x = signed (negative && decide (m ≠ 0)) w := by
  obtain ⟨hf, -⟩ := Double.finite_of_view hv
  rw [write, hv]
  dsimp only
  rw [Double.toInt?_of_finite hv]
  by_cases hi : m * 2 ^ k % unit = 0
  · rw [if_pos hi]
    dsimp only
    have hn := Nat.div_mul_cancel (Nat.dvd_of_mod_eq_zero hi)
    generalize m * 2 ^ k / unit = n at hn
    refine ⟨_, _, spells_toDigits n, Decimal.Interval.covers_natCast hn, ?_⟩
    rw [toString_signed, decide_eq_decide.2 (eq_zero_iff_of_mul_unit hn).not]
  · rw [if_neg hi]
    dsimp only
    obtain ⟨d, hd, hc⟩ := Decimal.exists_shortest hf
    have hm : m ≠ 0 := by
      rintro rfl
      exact hi (by rw [Nat.zero_mul, Nat.zero_mod])
    refine ⟨_, _, Decimal.spells_write d.trim, (Decimal.value_trim d).symm ▸ hc, ?_⟩
    rw [writeFraction, hd, decide_eq_true hm, Bool.and_true]
    rfl

theorem sign_signed (negative : Bool) (w : List Char) :
    ∃ s, Sign s negative ∧ (signed negative w).toList = s ++ w := by
  cases negative
  · exact ⟨[], .none, by rw [signed_false, String.toList_ofList, List.nil_append]⟩
  · exact ⟨['-'], .minus, by rw [signed_true, String.toList_ofList, List.singleton_append]⟩

theorem read_signed (h : Spells w q) (hf : Double.Finite m k) (hc : (ofFinite m k).Covers q)
    (negative : Bool) :
    read (signed negative w) = some (Double.ofIndex negative (k * 2 ^ 52 + m)) := by
  obtain ⟨d, hd, rfl⟩ := h.reads
  have hw := denotes_of_readDecimal hd
  obtain ⟨d', hd', hv⟩ := readUnsigned_of_denotes hw
  obtain ⟨s, hs, ht⟩ := sign_signed negative w
  rw [read_of_sign hs hw.unsigned ht, hd', Option.map_some, toFloat,
    Decimal.toFloat_of_covers hf (hv ▸ hc)]

/-- Every number is read from what is written for it, zero without its sign. -/
theorem read_write (x : Float) : read (write x) = some (Double.unsignedZero x) := by
  cases hv : Double.view x with
  | nan =>
    rw [Double.unsignedZero_of_view_ne (by rw [hv]; nofun), write, hv, Double.eq_nan_of_view hv]
    rfl
  | infinity negative =>
    rw [Double.unsignedZero_of_view_ne (by rw [hv]; nofun), write, hv,
      Double.eq_infinity_of_view hv]
    cases negative <;> rfl
  | finite negative m k =>
    obtain ⟨hf, -⟩ := Double.finite_of_view hv
    obtain ⟨w, q, hw, hc, hx⟩ := write_of_finite hv
    rw [Double.unsignedZero_of_finite hv, hx, read_signed hw hf hc]

end Numeral

end Formulae
