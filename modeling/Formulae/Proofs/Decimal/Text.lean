import Formulae.Proofs.Decimal.Value
import Formulae.Proofs.Lexing.Extents

namespace Formulae

open Lexeme (run mem_fraction mem_exponent)

namespace Numeral

/-- A number without a sign in a formula, and the value that it has there. -/
structure Spells (w : List Char) (q : ℚ) : Prop where
  lexeme : w ∈ Lexeme.number
  reads : ∃ d, readDecimal w = some d ∧ d.value = q

def Stops (v : List Char) : Prop := ∀ c ∈ v.head?, c.isDigit = false

def pointed (ds : List Char) : List Char := if ds = [] then [] else '.' :: ds

inductive Part : List Char → List Char → Prop
  | none : Part [] []
  | point (hd : ds ∈ run Char.isDigit) : Part ('.' :: ds) ds

section

variable {w v whole tail ds rest : List Char} {e : Int}

theorem takeWhile_of_stops (hw : w ∈ run Char.isDigit) (hv : Stops v) :
    (w ++ v).takeWhile Char.isDigit = w := by
  rw [List.takeWhile_append_of_pos hw]
  cases v with
  | nil => exact List.append_nil w
  | cons c v => rw [List.takeWhile_cons_of_neg (by simp [hv c rfl]), List.append_nil]

theorem dropWhile_of_stops (hw : w ∈ run Char.isDigit) (hv : Stops v) :
    (w ++ v).dropWhile Char.isDigit = v := by
  rw [List.dropWhile_append_of_pos hw]
  cases v with
  | nil => rfl
  | cons c v => rw [List.dropWhile_cons_of_neg (by simp [hv c rfl])]

theorem pointed_of_ne_nil (h : ds ≠ []) : pointed ds = '.' :: ds := if_neg h

theorem part_pointed (hd : ds ∈ run Char.isDigit) : Part (pointed ds) ds := by
  by_cases hn : ds = []
  · subst hn
    exact .none
  · rw [pointed_of_ne_nil hn]
    exact .point hd

theorem pointed_mem (hd : ds ∈ run Char.isDigit) : pointed ds ∈ 1 + Lexeme.fraction := by
  by_cases hn : ds = []
  · rw [hn]
    exact .inl rfl
  · rw [pointed_of_ne_nil hn]
    exact .inr (mem_fraction.2 ⟨ds, ⟨hn, hd⟩, rfl⟩)

theorem exponent_cases (hr : rest ∈ 1 + Lexeme.exponent) :
    rest = [] ∨ ∃ c cs, rest = c :: cs ∧ (c = 'e' ∨ c = 'E') := by
  rcases hr with hr | hr
  · exact .inl hr
  · obtain ⟨c, s, digits, hc, -, -, rfl⟩ := mem_exponent.1 hr
    exact .inr ⟨c, s ++ digits, rfl, hc⟩

theorem stops_exponent (hr : rest ∈ 1 + Lexeme.exponent) : Stops rest := by
  obtain rfl | ⟨c, cs, rfl, hc⟩ := exponent_cases hr
  · exact nofun
  · rintro _ ⟨⟩
    exact Lexeme.isDigit_of_mark hc

theorem stops_part (ht : Part tail ds) (hr : rest ∈ 1 + Lexeme.exponent) : Stops (tail ++ rest) := by
  cases ht with
  | none => exact stops_exponent hr
  | point hd =>
    rintro _ ⟨⟩
    rfl

theorem splitFraction_part (ht : Part tail ds) (hr : rest ∈ 1 + Lexeme.exponent) :
    splitFraction (tail ++ rest) = (ds, rest) := by
  cases ht with
  | none => obtain rfl | ⟨c, cs, rfl, rfl | rfl⟩ := exponent_cases hr <;> rfl
  | point hd =>
    have hs := stops_exponent hr
    rw [List.cons_append, splitFraction, takeWhile_of_stops hd hs, dropWhile_of_stops hd hs]

theorem readDecimal_of_parts (hw : whole ∈ run Char.isDigit) (ht : Part tail ds)
    (hne : whole ++ ds ≠ []) (hr : rest ∈ 1 + Lexeme.exponent) (he : readExponent rest = some e) :
    readDecimal (whole ++ tail ++ rest) =
      some ⟨Nat.ofDigitChars 10 (whole ++ ds) 0, e - ds.length⟩ := by
  have hs := stops_part ht hr
  rw [List.append_assoc, readDecimal, takeWhile_of_stops hw hs, dropWhile_of_stops hw hs,
    splitFraction_part ht hr]
  dsimp only
  rw [if_neg hne, he, Option.map_some]

theorem spells_of_parts (hw : whole ∈ Lexeme.digits) (hd : ds ∈ run Char.isDigit)
    (hr : rest ∈ 1 + Lexeme.exponent) (he : readExponent rest = some e) :
    Spells (whole ++ pointed ds ++ rest)
      (Nat.ofDigitChars 10 (whole ++ ds) 0 * 10 ^ (e - ds.length)) where
  lexeme := ⟨_, ⟨whole, hw, pointed ds, pointed_mem hd, rfl⟩, rest, hr, rfl⟩
  reads :=
    ⟨_, readDecimal_of_parts hw.2 (part_pointed hd) (List.append_ne_nil_of_left_ne_nil hw.1 ds) hr he,
      rfl⟩

theorem spells_of_whole (hw : whole ∈ Lexeme.digits) :
    Spells whole (Nat.ofDigitChars 10 whole 0) := by
  have h := spells_of_parts hw (List.forall_mem_nil _) (.inl rfl) rfl
  rwa [List.append_nil, show whole ++ pointed [] = whole from List.append_nil whole,
    List.append_nil, List.length_nil, Int.natCast_zero, Int.sub_self, zpow_zero, mul_one] at h

theorem spells_of_point (hw : whole ∈ Lexeme.digits) (hd : ds ∈ Lexeme.digits) :
    Spells (whole ++ '.' :: ds) (Nat.ofDigitChars 10 (whole ++ ds) 0 * 10 ^ (-ds.length : Int)) := by
  have h := spells_of_parts hw hd.2 (.inl rfl) rfl
  rwa [pointed_of_ne_nil hd.1, List.append_nil, Int.zero_sub] at h

theorem readExponent_cons {c : Char} {cs : List Char} {negative : Bool}
    (hc : c = 'e' ∨ c = 'E') (hs : splitSign cs = (negative, ds)) (hd : ds ∈ Lexeme.digits) :
    readExponent (c :: cs) = some
      (if negative then -(Nat.ofDigitChars 10 ds 0 : Int) else Nat.ofDigitChars 10 ds 0) := by
  rw [readExponent, hs]
  dsimp only
  rw [if_pos ⟨hc, hd.1, List.all_eq_true.2 hd.2⟩]

end

theorem toDigits_mem (n : Nat) : Nat.toDigits 10 n ∈ Lexeme.digits :=
  ⟨Nat.toDigits_ne_nil, fun _ hc => Nat.isDigit_of_mem_toDigits (by decide) (by decide) hc⟩

theorem replicate_zero_mem (n : Nat) : List.replicate n '0' ∈ run Char.isDigit := by
  intro c hc
  rw [List.eq_of_mem_replicate hc]
  rfl

theorem append_mem_run (hw : w ∈ run Char.isDigit) (hv : v ∈ run Char.isDigit) :
    w ++ v ∈ run Char.isDigit := List.forall_mem_append.2 ⟨hw, hv⟩

theorem spells_toDigits (n : Nat) : Spells (Nat.toDigits 10 n) n := by
  have h := spells_of_whole (toDigits_mem n)
  rwa [Nat.ofDigitChars_ten_toDigits] at h

end Numeral

namespace Decimal

open Numeral

theorem ofDigitChars_zeros (n : Nat) (ds : List Char) :
    Nat.ofDigitChars 10 (List.replicate n '0' ++ ds) 0 = Nat.ofDigitChars 10 ds 0 := by
  rw [Nat.ofDigitChars_append, Nat.ofDigitChars_replicate_zero, Nat.mul_zero]

theorem padLeft_mem {ds : List Char} (hd : ds ∈ Lexeme.digits) (width : Nat) :
    padLeft width ds ∈ Lexeme.digits :=
  ⟨fun h => hd.1 (List.append_eq_nil_iff.1 h).2, append_mem_run (replicate_zero_mem _) hd.2⟩

theorem readExponent_scientific (power : Int) (width : Nat) :
    readExponent ('e' :: (if power < 0 then '-' else '+') ::
      padLeft width (Nat.toDigits 10 power.natAbs)) = some power := by
  have hm := padLeft_mem (toDigits_mem power.natAbs) width
  have hv : Nat.ofDigitChars 10 (padLeft width (Nat.toDigits 10 power.natAbs)) 0 =
      power.natAbs := by
    rw [padLeft, ofDigitChars_zeros, Nat.ofDigitChars_ten_toDigits]
  generalize padLeft width (Nat.toDigits 10 power.natAbs) = ds at hm hv
  split_ifs with hp
  · have hs : splitSign ('-' :: ds) = (true, ds) := rfl
    rw [readExponent_cons (.inl rfl) hs hm, hv, if_pos rfl]
    congr 1
    omega
  · have hs : splitSign ('+' :: ds) = (false, ds) := rfl
    rw [readExponent_cons (.inl rfl) hs hm, hv, if_neg Bool.false_ne_true]
    congr 1
    omega

theorem exponent_mem (power : Int) (width : Nat) :
    'e' :: (if power < 0 then '-' else '+') :: padLeft width (Nat.toDigits 10 power.natAbs) ∈
      1 + Lexeme.exponent := by
  refine .inr (mem_exponent.2 ⟨'e', [if power < 0 then '-' else '+'], _, .inl rfl, .inr ?_,
    padLeft_mem (toDigits_mem power.natAbs) width, rfl⟩)
  split_ifs
  · exact .inr rfl
  · exact .inl rfl

section

variable (c : Nat) (e : Int)

theorem spells_scientific : Spells
    (scientific (Nat.toDigits 10 c) (e + (Nat.toDigits 10 c).length - 1)) (c * 10 ^ e) := by
  have hd := toDigits_mem c
  have hc := @Nat.ofDigitChars_ten_toDigits c
  generalize Nat.toDigits 10 c = ds at *
  have hl := List.length_pos_of_ne_nil hd.1
  have ht : ds.take 1 ∈ Lexeme.digits :=
    ⟨fun h => hd.1 (by simpa using h), fun x hx => hd.2 x (List.mem_of_mem_take hx)⟩
  have hr : ds.drop 1 ∈ run Char.isDigit := fun x hx => hd.2 x (List.mem_of_mem_drop hx)
  have h := spells_of_parts ht hr (exponent_mem (e + ds.length - 1) layout.exponentWidth)
    (readExponent_scientific _ _)
  rw [List.take_append_drop, hc, List.length_drop,
    show e + ds.length - 1 - (ds.length - 1 : Nat) = e by omega] at h
  exact h

theorem spells_plain :
    Spells (plain (Nat.toDigits 10 c) (e + (Nat.toDigits 10 c).length)) (c * 10 ^ e) := by
  have hd := toDigits_mem c
  have hc := @Nat.ofDigitChars_ten_toDigits c
  generalize Nat.toDigits 10 c = ds at *
  have hl := List.length_pos_of_ne_nil hd.1
  generalize hp : e + ds.length = point
  unfold plain
  split_ifs with hneg hle
  · have hz : ['0'] ∈ Lexeme.digits := ⟨List.cons_ne_nil _ _, List.forall_mem_singleton.2 rfl⟩
    have hz' : List.replicate (-point).toNat '0' ++ ds ∈ Lexeme.digits :=
      ⟨List.append_ne_nil_of_right_ne_nil _ hd.1, append_mem_run (replicate_zero_mem _) hd.2⟩
    have h := spells_of_point hz hz'
    rw [Nat.ofDigitChars_append, show Nat.ofDigitChars 10 ['0'] 0 = 0 from rfl, ofDigitChars_zeros,
      hc, List.length_append, List.length_replicate,
      show -((-point).toNat + ds.length : Nat) = e by omega] at h
    exact h
  · lift e to Nat using (by omega)
    have hz : ds ++ List.replicate (point.toNat - ds.length) '0' ∈ Lexeme.digits :=
      ⟨List.append_ne_nil_of_left_ne_nil hd.1 _, append_mem_run hd.2 (replicate_zero_mem _)⟩
    have h := spells_of_whole hz
    rw [Nat.ofDigitChars_append, hc, Nat.ofDigitChars_replicate_zero, Nat.mul_comm] at h
    rw [show point.toNat - ds.length = e by omega] at h ⊢
    rw [zpow_natCast]
    push_cast at h
    exact h
  · have ht : ds.take point.toNat ∈ Lexeme.digits := by
      refine ⟨List.ne_nil_of_length_pos ?_, fun x hx => hd.2 x (List.mem_of_mem_take hx)⟩
      rw [List.length_take]
      omega
    have hr : ds.drop point.toNat ∈ Lexeme.digits := by
      refine ⟨List.ne_nil_of_length_pos ?_, fun x hx => hd.2 x (List.mem_of_mem_drop hx)⟩
      rw [List.length_drop]
      omega
    have h := spells_of_point ht hr
    rw [List.take_append_drop, hc, List.length_drop,
      show -((ds.length - point.toNat : Nat) : Int) = e by omega] at h
    exact h

end

theorem spells_write (d : Decimal) : Spells d.write d.value := by
  unfold write
  dsimp only
  split_ifs
  · rw [Int.sub_add_cancel]
    exact spells_plain d.coefficient d.exponent
  · exact spells_scientific d.coefficient d.exponent

end Decimal

end Formulae
