import Formulae.Proofs.Conversion

namespace Formulae

namespace Double

variable {negative : Bool} {i : Nat}

theorem ofIndex_eq_infinity_iff (hi : i ≤ infinityIndex) :
    ofIndex negative i = infinity negative ↔ i = infinityIndex := by
  constructor
  · intro h
    have hv := view_ofIndex negative hi
    rw [h, view_infinity] at hv
    split at hv
    next hi => exact hi
    next => cases hv
  · rintro rfl
    rfl

theorem ofInt?_natCast (n : Nat) :
    ofInt? n =
      if nearest false n 1 = infinity false then none else some (nearest false n 1) := by
  have hle : nearestIndex n 1 ≤ infinityIndex := Nat.min_le_left _ _
  have hsign : decide ((n : Int) < 0) = false :=
    decide_eq_false (Int.not_lt.2 (Int.natCast_nonneg n))
  have h : ofIndex false (nearestIndex n 1) = infinity false ↔ _ := ofIndex_eq_infinity_iff hle
  rw [ofInt?, Int.natAbs_natCast, hsign]
  simp only [nearest, h]

end Double

namespace Numeral

theorem read_of_spells {w : List Char} {q : ℚ} {x : Float} (h : Spells w q)
    (hx : Double.Rounds false q x) : read (String.ofList w) = some x := by
  obtain ⟨d, hd, rfl⟩ := h.reads
  refine read_iff.2 ?_
  rw [String.toList_ofList]
  exact .decimal .none (denotes_of_readDecimal hd) hx

theorem spells_zeros (zeros n : Nat) :
    Spells (List.replicate zeros '0' ++ Nat.toDigits 10 n) n := by
  have hn := toDigits_mem n
  have hd : List.replicate zeros '0' ++ Nat.toDigits 10 n ∈ Lexeme.digits :=
    ⟨List.append_ne_nil_of_right_ne_nil _ hn.1, append_mem_run (replicate_zero_mem zeros) hn.2⟩
  have h := spells_of_whole hd
  rwa [Decimal.ofDigitChars_zeros, Nat.ofDigitChars_ten_toDigits] at h

end Numeral

namespace Native

theorem toValue_integer (n : Int) : (integer n).toValue =
    (Double.ofInt? n).elim (.error (.overflow "int too large to convert to float"))
      fun x => .ok (.number x) := by
  -- by cases of the conversion, so that no rounding is unfolded
  generalize hv : integer n = v
  fun_cases toValue v with
  | case1 _ x hx => cases hv; rw [hx]; rfl
  | case2 _ hx => cases hv; rw [hx]; rfl
  | _ => cases hv

theorem toValue_natCast (n : Nat) : (integer n).toValue =
    if Double.nearest false n 1 = Double.infinity false then
      .error (.overflow "int too large to convert to float")
    else .ok (.number (Double.nearest false n 1)) := by
  rw [toValue_integer, Double.ofInt?_natCast]
  split <;> rfl

end Native

/-- The digits of a natural number, with any zeros in front, are a formula and a binding with the
double that the number is rounded to. As an integer the number is converted to this double as well,
unless that is infinite, which it is from half way to the next power of two on. -/
theorem integers_agree (n zeros : Nat) (context : Context) :
    let text := String.ofList (List.replicate zeros '0' ++ Nat.toDigits 10 n)
    ∃ x, Double.Rounds false n x ∧
      (({} : Session).evaluate context text).outcome.1 = .ok (.number x) ∧
      CommandLine.parseBinding ("x=" ++ text) = .ok ("x", .number x) ∧
      (∀ v, (Native.integer n).toValue = .ok v ↔ x ≠ Double.infinity false ∧ v = .number x) ∧
      (∀ e, (Native.integer n).toValue = .error e ↔
        x = Double.infinity false ∧ e = .overflow "int too large to convert to float") ∧
      (x = Double.infinity false ↔ Double.overflow ≤ n) := by
  intro text
  have hx : Double.Rounds false (n / (1 : Nat)) (Double.nearest false n 1) :=
    Double.rounds_nearest one_pos false
  rw [Nat.cast_one, div_one] at hx
  have hw := Numeral.spells_zeros zeros n
  have hr := Numeral.read_of_spells hw hx
  have hb := CommandLine.parseBinding_eq ['x'] text (by decide) (by decide)
  rw [CommandLine.valueOf_of_read hr] at hb
  have he : (({} : Session).evaluate context text).outcome.1 = _ :=
    Session.evaluate_number hw.lexeme hr (by decide) (by decide)
  have hv := Native.toValue_natCast n
  generalize Double.nearest false n 1 = x at *
  refine ⟨x, hx, he, hb, ?_, ?_, hx.eq_infinity_iff⟩
  · intro v
    rw [hv]
    by_cases h : x = Double.infinity false <;> simp [h, eq_comm]
  · intro e
    rw [hv]
    by_cases h : x = Double.infinity false <;> simp [h, eq_comm]

/-- A tie goes down to the even neighbour, and zeros in front count for nothing. -/
example : Numeral.read "009007199254740993" = Double.ofInt? 9007199254740992 := by decide +kernel

end Formulae
