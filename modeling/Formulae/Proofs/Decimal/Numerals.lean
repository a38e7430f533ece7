import Formulae.Proofs.Decimal.Text
import Formulae.Proofs.Double.Nearest

namespace Formulae

open Lexeme (digits sign exponent run mem_exponent)

namespace Numeral

def decimals : Language Char :=
  (digits * (1 + {['.']} * run Char.isDigit) + {['.']} * digits) * (1 + exponent)

def named (names : List String) : Language Char :=
  {w | String.ofList (w.map Char.toLower) ∈ names}

def numerals : Language Char := (1 + sign) * (decimals + named ["inf", "infinity", "nan"])

inductive Sign : List Char → Bool → Prop
  | none : Sign [] false
  | plus : Sign ['+'] false
  | minus : Sign ['-'] true

inductive Power : List Char → Int → Prop
  | none : Power [] 0
  | written (hc : c = 'e' ∨ c = 'E') (hs : Sign s negative) (hd : ds ∈ digits) :
      Power (c :: (s ++ ds))
        (if negative then -(Nat.ofDigitChars 10 ds 0 : Int) else Nat.ofDigitChars 10 ds 0)

inductive Denotes : List Char → ℚ → Prop
  | intro (hw : whole ∈ run Char.isDigit) (ht : Part tail ds) (hne : whole ++ ds ≠ [])
      (he : Power rest e) :
      Denotes (whole ++ tail ++ rest)
        ((Nat.ofDigitChars 10 whole 0 + Nat.ofDigitChars 10 ds 0 / 10 ^ ds.length) * 10 ^ e)

/-- What the text of a number stands for. -/
inductive Means : List Char → Float → Prop
  | decimal (hs : Sign s negative) (hw : Denotes w q) (hx : Double.Rounds negative q x) :
      Means (s ++ w) x
  | infinity (hs : Sign s negative) (hw : w ∈ named ["inf", "infinity"]) :
      Means (s ++ w) (Double.infinity negative)
  | nan (hs : Sign s negative) (hw : w ∈ named ["nan"]) : Means (s ++ w) Double.nan

section

variable {s w cs ds rest : List Char} {c : Char} {negative : Bool} {e : Int} {q : ℚ}

theorem mem_sign_iff : s ∈ 1 + sign ↔ ∃ negative, Sign s negative := by
  constructor
  · rintro (rfl | rfl | rfl)
    · exact ⟨false, .none⟩
    · exact ⟨false, .plus⟩
    · exact ⟨true, .minus⟩
  · rintro ⟨_, hs⟩
    cases hs with
    | none => exact .inl rfl
    | plus => exact .inr (.inl rfl)
    | minus => exact .inr (.inr rfl)

theorem exists_sign (cs : List Char) : ∃ s, Sign s (splitSign cs).1 ∧ cs = s ++ (splitSign cs).2 := by
  unfold splitSign
  split
  · exact ⟨['-'], .minus, rfl⟩
  · exact ⟨['+'], .plus, rfl⟩
  · exact ⟨[], .none, rfl⟩

def Unsigned (w : List Char) : Prop := ∀ c ∈ w.head?, c ≠ '+' ∧ c ≠ '-'

theorem splitSign_append (hs : Sign s negative) (hw : Unsigned w) :
    splitSign (s ++ w) = (negative, w) := by
  cases hs with
  | none =>
    rw [List.nil_append]
    unfold splitSign
    split
    next => exact absurd rfl (hw _ rfl).2
    next => exact absurd rfl (hw _ rfl).1
    next => rfl
  | plus => rfl
  | minus => rfl

theorem unsigned_digits (hd : ds ∈ digits) : Unsigned ds := by
  obtain ⟨d, ds, rfl, hd, -⟩ := Lexeme.cons_of_mem_digits hd
  rintro _ ⟨⟩
  constructor <;> rintro rfl <;> cases hd

theorem Power.mem (h : Power rest e) : rest ∈ 1 + exponent := by
  cases h with
  | none => exact .inl rfl
  | @written c s negative ds hc hs hd =>
    exact .inr (mem_exponent.2 ⟨c, s, ds, hc, mem_sign_iff.2 ⟨_, hs⟩, hd, rfl⟩)

theorem exists_power (h : rest ∈ 1 + exponent) : ∃ e, Power rest e := by
  rcases h with rfl | h
  · exact ⟨0, .none⟩
  · obtain ⟨c, s, ds, hc, hs, hd, rfl⟩ := mem_exponent.1 h
    obtain ⟨negative, hs⟩ := mem_sign_iff.1 hs
    exact ⟨_, .written hc hs hd⟩

theorem readExponent_iff : readExponent rest = some e ↔ Power rest e := by
  constructor
  · intro h
    cases rest with
    | nil => cases h; exact .none
    | cons c cs =>
      obtain ⟨s, hs, hcs⟩ := exists_sign cs
      rw [readExponent] at h
      generalize splitSign cs = r at h hs hcs
      obtain ⟨negative, ds⟩ := r
      obtain ⟨⟨hc, hne, hd⟩, he⟩ := Option.ite_none_right_eq_some.1 h
      rw [hcs, ← Option.some.inj he]
      exact .written hc hs ⟨hne, List.all_eq_true.1 hd⟩
  · intro h
    cases h with
    | none => rfl
    | written hc hs hd => exact readExponent_cons hc (splitSign_append hs (unsigned_digits hd)) hd

theorem part_split (cs : List Char) : ∃ tail, Part tail (splitFraction cs).1 ∧
    cs = tail ++ (splitFraction cs).2 := by
  unfold splitFraction
  split
  next cs =>
    exact ⟨_, .point fun c hc => List.mem_takeWhile_imp hc, by rw [List.cons_append,
      List.takeWhile_append_dropWhile]⟩
  next => exact ⟨[], .none, rfl⟩

theorem value_of_parts (whole ds : List Char) (e : Int) :
    (⟨Nat.ofDigitChars 10 (whole ++ ds) 0, e - ds.length⟩ : Decimal).value =
      (Nat.ofDigitChars 10 whole 0 + Nat.ofDigitChars 10 ds 0 / 10 ^ ds.length) * 10 ^ e := by
  have hp : (10 : ℚ) ^ ds.length ≠ 0 := by positivity
  rw [Decimal.value, Nat.ofDigitChars_append, Nat.ofDigitChars_eq_ofDigitChars_zero,
    zpow_sub₀ (by norm_num), zpow_natCast]
  push_cast
  field_simp

theorem denotes_of_readDecimal {d : Decimal} (h : readDecimal w = some d) : Denotes w d.value := by
  obtain ⟨tail, ht, hw⟩ := part_split (w.dropWhile Char.isDigit)
  rw [readDecimal] at h
  dsimp only at h
  split_ifs at h with hne
  obtain ⟨e, he, rfl⟩ := Option.map_eq_some_iff.1 h
  have hr := Denotes.intro (fun c hc => List.mem_takeWhile_imp hc) ht hne (readExponent_iff.1 he)
  rw [List.append_assoc, ← hw, List.takeWhile_append_dropWhile] at hr
  rwa [value_of_parts]

theorem readDecimal_of_denotes (h : Denotes w q) : ∃ d, readDecimal w = some d ∧ d.value = q := by
  obtain ⟨hw, ht, hne, he⟩ := h
  exact ⟨_, readDecimal_of_parts hw ht hne he.mem (readExponent_iff.2 he), value_of_parts _ _ _⟩

theorem Denotes.head (h : Denotes w q) : ∃ c cs, w = c :: cs ∧ (c.isDigit ∨ c = '.') := by
  obtain @⟨whole, _, _, _, _, hw, ht, hne, -⟩ := h
  cases whole with
  | cons c whole => exact ⟨c, _, rfl, .inl (hw c List.mem_cons_self)⟩
  | nil =>
    cases ht with
    | none => exact absurd rfl hne
    | point hd => exact ⟨'.', _, rfl, .inr rfl⟩

theorem mem_named_iff {names : List String} :
    w ∈ named names ↔ String.ofList (w.map Char.toLower) ∈ names := Iff.rfl

theorem map_toLower_of_mem_named (h : w ∈ named ["inf", "infinity", "nan"]) :
    w.map Char.toLower = ['i', 'n', 'f'] ∨
      w.map Char.toLower = ['i', 'n', 'f', 'i', 'n', 'i', 't', 'y'] ∨
      w.map Char.toLower = ['n', 'a', 'n'] := by
  simpa [mem_named_iff, ← String.toList_inj] using h

theorem cons_of_mem_named (h : w ∈ named ["inf", "infinity", "nan"]) :
    ∃ c cs, w = c :: cs ∧ (c.toLower = 'i' ∨ c.toLower = 'n') := by
  have hw := map_toLower_of_mem_named h
  rcases w with _ | ⟨c, cs⟩
  · simp at hw
  · refine ⟨c, cs, rfl, ?_⟩
    rcases hw with hw | hw | hw
    · exact .inl (List.cons.inj hw).1
    · exact .inl (List.cons.inj hw).1
    · exact .inr (List.cons.inj hw).1

theorem toLower_of_digit_or_point (hc : c.isDigit ∨ c = '.') : c.toLower = c := by
  rcases hc with hc | rfl
  · refine Char.toLower_eq_of_not_isUpper fun hu => ?_
    have ha : c.isAlpha := by rw [Char.isAlpha, hu, Bool.true_or]
    rw [Lexeme.isDigit_of_isAlpha ha] at hc
    cases hc
  · rfl

theorem Denotes.notMem_named (h : Denotes w q) : w ∉ named ["inf", "infinity", "nan"] := by
  obtain ⟨c, cs, rfl, hc⟩ := h.head
  intro hn
  obtain ⟨_, _, ⟨⟩, hn⟩ := cons_of_mem_named hn
  rw [toLower_of_digit_or_point hc] at hn
  rcases hn with rfl | rfl <;> rcases hc with hc | hc <;> cases hc

theorem Denotes.unsigned (h : Denotes w q) : Unsigned w := by
  obtain ⟨c, cs, rfl, hc⟩ := h.head
  rintro _ ⟨⟩
  constructor <;> rintro rfl <;> rcases hc with hc | hc <;> cases hc

theorem unsigned_of_named (h : w ∈ named ["inf", "infinity", "nan"]) : Unsigned w := by
  obtain ⟨c, cs, rfl, hc⟩ := cons_of_mem_named h
  rintro _ ⟨⟩
  constructor <;> rintro rfl <;> rcases hc with hc | hc <;> cases hc

theorem named_mono {names names' : List String} (h : names ⊆ names') (hw : w ∈ named names) :
    w ∈ named names' := h hw

theorem readUnsigned_of_infinity (hw : w ∈ named ["inf", "infinity"]) :
    readUnsigned w = some .infinity := by
  have hn : String.ofList (w.map Char.toLower) = "inf" ∨
      String.ofList (w.map Char.toLower) = "infinity" := by
    simpa [mem_named_iff] using hw
  rw [readUnsigned, if_pos hn]

theorem readUnsigned_of_nan (hw : w ∈ named ["nan"]) : readUnsigned w = some .nan := by
  have hn : String.ofList (w.map Char.toLower) = "nan" := List.mem_singleton.1 hw
  rw [readUnsigned, hn]
  rfl

theorem readUnsigned_of_denotes (hw : Denotes w q) :
    ∃ d, readUnsigned w = some (.decimal d) ∧ d.value = q := by
  obtain ⟨d, hd, hq⟩ := readDecimal_of_denotes hw
  have hn : ∀ name ∈ ["inf", "infinity", "nan"], String.ofList (w.map Char.toLower) ≠ name :=
    fun name hn h => hw.notMem_named (mem_named_iff.2 (h.symm ▸ hn))
  refine ⟨d, ?_, hq⟩
  rw [readUnsigned, if_neg (not_or.2 ⟨hn _ (by decide), hn _ (by decide)⟩),
    if_neg (hn _ (by decide)), hd, Option.map_some]

theorem means_of_readUnsigned {n : Numeral} (hs : Sign s negative) (h : readUnsigned w = some n) :
    Means (s ++ w) (n.toFloat negative) := by
  rw [readUnsigned] at h
  split_ifs at h with hi hn
  · cases h
    refine .infinity hs ?_
    rcases hi with hi | hi
    · exact List.mem_cons.2 (.inl hi)
    · exact List.mem_cons_of_mem _ (List.mem_singleton.2 hi)
  · cases h
    exact .nan hs (List.mem_singleton.2 hn)
  · obtain ⟨d, hd, rfl⟩ := Option.map_eq_some_iff.1 h
    exact .decimal hs (denotes_of_readDecimal hd) (Decimal.rounds_toFloat negative d)

theorem read_of_sign {text : String} (hs : Sign s negative) (hw : Unsigned w)
    (ht : text.toList = s ++ w) : read text = (readUnsigned w).map (toFloat negative) := by
  rw [read, ht, splitSign_append hs hw]

end

/-- A text is read as what it stands for, and no other text is read. -/
theorem read_iff {text : String} {x : Float} : read text = some x ↔ Means text.toList x := by
  constructor
  · intro h
    obtain ⟨s, hs, ht⟩ := exists_sign text.toList
    rw [read] at h
    generalize splitSign text.toList = r at h hs ht
    obtain ⟨negative, w⟩ := r
    obtain ⟨n, hn, rfl⟩ := Option.map_eq_some_iff.1 h
    rw [ht]
    exact means_of_readUnsigned hs hn
  · intro h
    generalize ht : text.toList = cs at h
    cases h with
    | decimal hs hw hx =>
      obtain ⟨d, hd, rfl⟩ := readUnsigned_of_denotes hw
      rw [read_of_sign hs hw.unsigned ht, hd, Option.map_some, toFloat,
        Decimal.eq_toFloat_of_rounds hx]
    | infinity hs hw =>
      have hu := unsigned_of_named (named_mono (by decide) hw)
      rw [read_of_sign hs hu ht, readUnsigned_of_infinity hw, Option.map_some, toFloat]
    | nan hs hw =>
      have hu := unsigned_of_named (named_mono (by decide) hw)
      rw [read_of_sign hs hu ht, readUnsigned_of_nan hw, Option.map_some, toFloat]

theorem mem_decimals_iff {w : List Char} : w ∈ decimals ↔ ∃ q, Denotes w q := by
  constructor
  · rintro ⟨_, hm, rest, hr, rfl⟩
    obtain ⟨e, he⟩ := exists_power hr
    rcases hm with ⟨whole, hw, _, rfl | ⟨_, rfl, ds, hd, rfl⟩, rfl⟩ | ⟨_, rfl, ds, hd, rfl⟩
    · exact ⟨_, .intro hw.2 .none (List.append_ne_nil_of_left_ne_nil hw.1 _) he⟩
    · exact ⟨_, .intro hw.2 (.point hd) (List.append_ne_nil_of_left_ne_nil hw.1 _) he⟩
    · have h : Denotes ([] ++ '.' :: ds ++ rest) _ :=
        .intro (List.forall_mem_nil _) (.point hd.2) hd.1 he
      exact ⟨_, h⟩
  · rintro ⟨_, @⟨whole, tail, ds, rest, e, hw, ht, hne, he⟩⟩
    refine ⟨whole ++ tail, ?_, rest, he.mem, rfl⟩
    by_cases hn : whole = []
    · subst hn
      cases ht with
      | none => exact absurd rfl hne
      | point hd => exact .inr ⟨['.'], rfl, ds, ⟨hne, hd⟩, rfl⟩
    · refine .inl ⟨whole, ⟨hn, hw⟩, tail, ?_, rfl⟩
      cases ht with
      | none => exact .inl rfl
      | point hd => exact .inr ⟨['.'], rfl, ds, hd, rfl⟩

theorem mem_numerals_iff {cs : List Char} : cs ∈ numerals ↔ ∃ x, Means cs x := by
  constructor
  · rintro ⟨s, hs, w, hw, rfl⟩
    obtain ⟨negative, hs⟩ := mem_sign_iff.1 hs
    rcases hw with hw | hw
    · obtain ⟨q, hw⟩ := mem_decimals_iff.1 hw
      obtain ⟨d, -, rfl⟩ := readDecimal_of_denotes hw
      exact ⟨_, .decimal hs hw (Decimal.rounds_toFloat negative d)⟩
    · obtain hw | hw : w ∈ named ["inf", "infinity"] ∨ w ∈ named ["nan"] := by
        rcases List.mem_cons.1 hw with h | hw
        · exact .inl (List.mem_cons.2 (.inl h))
        · rcases List.mem_cons.1 hw with h | h
          · exact .inl (List.mem_cons_of_mem _ (List.mem_cons.2 (.inl h)))
          · exact .inr h
      · exact ⟨_, .infinity hs hw⟩
      · exact ⟨_, .nan hs hw⟩
  · rintro ⟨x, h⟩
    cases h with
    | decimal hs hw =>
      exact ⟨_, mem_sign_iff.2 ⟨_, hs⟩, _, .inl (mem_decimals_iff.2 ⟨_, hw⟩), rfl⟩
    | infinity hs hw =>
      exact ⟨_, mem_sign_iff.2 ⟨_, hs⟩, _, .inr (named_mono (by decide) hw), rfl⟩
    | nan hs hw =>
      exact ⟨_, mem_sign_iff.2 ⟨_, hs⟩, _, .inr (named_mono (by decide) hw), rfl⟩

end Numeral

end Formulae
