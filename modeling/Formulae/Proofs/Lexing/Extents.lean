import Formulae.Proofs.Lexing.Languages
import Mathlib.Data.List.TakeWhile

namespace Formulae

namespace Lexeme

open Token (Kind)

section

variable {p : Char → Bool} {w u v : List Char}

def run (p : Char → Bool) : Language Char := {w | ∀ c ∈ w, p c}

theorem length_takeWhile_of_mem_run (hw : w ∈ run p) (v : List Char) :
    ((w ++ v).takeWhile p).length = w.length + (v.takeWhile p).length := by
  rw [List.takeWhile_append_of_pos hw, List.length_append]

theorem length_takeWhile_of_stop (hw : w ∈ run p) (hc : p c = false) (v : List Char) :
    ((w ++ c :: v).takeWhile p).length = w.length := by
  rw [length_takeWhile_of_mem_run hw, List.takeWhile_cons_of_neg (by simp [hc])]
  rfl

theorem greedy_run (p : Char → Bool) : Greedy (run p) fun cs => (cs.takeWhile p).length where
  le_length cs := (List.takeWhile_prefix p).length_le
  mem cs := by
    rw [← List.prefix_iff_eq_take.1 (List.takeWhile_prefix p)]
    exact fun c hc => List.mem_takeWhile_imp hc
  length_le w hw v := by
    rw [length_takeWhile_of_mem_run hw]
    exact Nat.le_add_right _ _

theorem greedy_digits : Greedy (run Char.isDigit) digitsExtent := greedy_run Char.isDigit

theorem length_le_digitsExtent (hw : w ∈ digits) (v : List Char) :
    w.length ≤ digitsExtent (w ++ v) :=
  greedy_digits.length_le w hw.2 v

theorem take_digitsExtent_mem (h : digitsExtent cs ≠ 0) : cs.take (digitsExtent cs) ∈ digits := by
  refine ⟨fun hn => ?_, greedy_digits.mem cs⟩
  have hl := congrArg List.length hn
  rw [List.length_take, Nat.min_eq_left (greedy_digits.le_length cs)] at hl
  exact h hl

theorem cons_of_mem_digits (hw : w ∈ digits) :
    ∃ d ds, w = d :: ds ∧ d.isDigit ∧ ds ∈ run Char.isDigit := by
  obtain ⟨hw, hd⟩ := hw
  obtain ⟨d, ds, rfl⟩ := List.exists_cons_of_ne_nil hw
  exact ⟨d, ds, rfl, hd d List.mem_cons_self, fun c hc => hd c (List.mem_cons_of_mem d hc)⟩

theorem mem_fraction : w ∈ fraction ↔ ∃ ds ∈ digits, w = '.' :: ds := by
  constructor
  · rintro ⟨_, rfl, ds, hd, rfl⟩
    exact ⟨ds, hd, rfl⟩
  · rintro ⟨ds, hd, rfl⟩
    exact ⟨['.'], rfl, ds, hd, rfl⟩

theorem greedy_fraction : Greedy (1 + fraction) fractionExtent where
  le_length cs := by
    unfold fractionExtent
    split
    next cs =>
      have := greedy_digits.le_length cs
      rw [List.length_cons]
      split <;> omega
    next => exact Nat.zero_le _
  mem cs := by
    unfold fractionExtent
    split
    next cs =>
      split
      next => exact .inl rfl
      next h =>
        rw [Nat.add_comm, List.take_succ_cons]
        exact .inr (mem_fraction.2 ⟨_, take_digitsExtent_mem h, rfl⟩)
    next => exact .inl rfl
  length_le w hw v := by
    rcases hw with rfl | hw
    · exact Nat.zero_le _
    · obtain ⟨ds, hd, rfl⟩ := mem_fraction.1 hw
      have hl := length_le_digitsExtent hd v
      have := List.length_pos_of_ne_nil hd.1
      rw [List.cons_append, fractionExtent, if_neg (by omega), List.length_cons]
      omega

theorem mem_exponent : w ∈ exponent ↔
    ∃ c s ds, (c = 'e' ∨ c = 'E') ∧ s ∈ 1 + sign ∧ ds ∈ digits ∧ w = c :: (s ++ ds) := by
  constructor
  · rintro ⟨_, ⟨_, rfl | rfl, s, hs, rfl⟩, ds, hd, rfl⟩
    · exact ⟨'e', s, ds, .inl rfl, hs, hd, rfl⟩
    · exact ⟨'E', s, ds, .inr rfl, hs, hd, rfl⟩
  · rintro ⟨c, s, ds, hc, hs, hd, rfl⟩
    refine ⟨c :: s, ⟨[c], ?_, s, hs, rfl⟩, ds, hd, rfl⟩
    rcases hc with rfl | rfl
    · exact .inl rfl
    · exact .inr rfl

theorem isDigit_of_mark {c : Char} (hc : c = 'e' ∨ c = 'E') : c.isDigit = false := by
  rcases hc with rfl | rfl <;> rfl

theorem take_signExtent_mem (cs : List Char) : cs.take (signExtent cs) ∈ 1 + sign := by
  unfold signExtent
  split
  · exact .inr (.inl rfl)
  · exact .inr (.inr rfl)
  · exact .inl rfl

theorem signExtent_le_length (cs : List Char) : signExtent cs ≤ cs.length := by
  unfold signExtent
  split <;> simp

theorem signExtent_append (hs : w ∈ 1 + sign) (hd : u ∈ digits) (v : List Char) :
    signExtent (w ++ (u ++ v)) = w.length := by
  rcases hs with rfl | rfl | rfl
  · obtain ⟨d, ds, rfl, hd, -⟩ := cons_of_mem_digits hd
    unfold signExtent
    split
    next h => cases (List.cons.inj h).1; cases hd
    next h => cases (List.cons.inj h).1; cases hd
    next => rfl
  · rfl
  · rfl

theorem greedy_exponent : Greedy (1 + exponent) exponentExtent where
  le_length cs := by
    unfold exponentExtent
    split
    next c cs =>
      have := signExtent_le_length cs
      have hd := greedy_digits.le_length (cs.drop (signExtent cs))
      rw [List.length_drop] at hd
      dsimp only [List.length_cons]
      split <;> omega
    next => exact Nat.zero_le _
  mem cs := by
    unfold exponentExtent
    split
    next c cs =>
      dsimp only
      split
      next h =>
        rw [Nat.add_assoc, Nat.add_comm, List.take_succ_cons, List.take_add]
        exact .inr (mem_exponent.2
          ⟨c, _, _, h.1, take_signExtent_mem cs, take_digitsExtent_mem h.2, rfl⟩)
      next => exact .inl rfl
    next => exact .inl rfl
  length_le w hw v := by
    rcases hw with rfl | hw
    · exact Nat.zero_le _
    · obtain ⟨c, s, ds, hc, hs, hd, rfl⟩ := mem_exponent.1 hw
      have hl := length_le_digitsExtent hd v
      have := List.length_pos_of_ne_nil hd.1
      rw [List.cons_append, List.append_assoc, exponentExtent, signExtent_append hs hd,
        List.drop_left, if_pos ⟨hc, by omega⟩, List.length_cons, List.length_append]
      omega

def numberTail : Language Char := run Char.isDigit * ((1 + fraction) * (1 + exponent))

theorem cons_mem_number : c :: w ∈ number ↔ c.isDigit ∧ w ∈ numberTail := by
  rw [number, mul_assoc]
  constructor
  · rintro ⟨a, ha, b, hb, h⟩
    obtain ⟨d, ds, rfl, hd, hr⟩ := cons_of_mem_digits ha
    obtain ⟨rfl, rfl⟩ := List.cons.inj h
    exact ⟨hd, ds, hr, b, hb, rfl⟩
  · rintro ⟨hc, a, ha, b, hb, rfl⟩
    exact ⟨c :: a, ⟨List.cons_ne_nil c a, List.forall_mem_cons.2 ⟨hc, ha⟩⟩, b, hb, rfl⟩

theorem fractionExtent_append_exponent (hw : w ∈ 1 + fraction) (hu : u ∈ 1 + exponent)
    (hn : u ≠ []) (v : List Char) : fractionExtent (w ++ (u ++ v)) = w.length := by
  obtain ⟨c, s, ds, hc, -, -, rfl⟩ := mem_exponent.1 (hu.resolve_left hn)
  have hp : c ≠ '.' := by rcases hc with rfl | rfl <;> decide
  rcases hw with rfl | hw
  · unfold fractionExtent
    split
    next h => exact absurd (List.cons.inj h).1 hp
    next => rfl
  · obtain ⟨es, he, rfl⟩ := mem_fraction.1 hw
    have hl : digitsExtent (es ++ c :: (s ++ ds ++ v)) = es.length :=
      length_takeWhile_of_stop he.2 (isDigit_of_mark hc) _
    have := List.length_pos_of_ne_nil he.1
    rw [List.cons_append, List.cons_append, fractionExtent, hl, if_neg (by omega), List.length_cons,
      Nat.add_comm]

theorem digitsExtent_append_tail (hw : w ∈ run Char.isDigit)
    (hu : u ∈ (1 + fraction) * (1 + exponent)) (hn : u ≠ []) (v : List Char) :
    digitsExtent (w ++ (u ++ v)) = w.length := by
  obtain ⟨c, t, rfl, hc⟩ : ∃ c t, u = c :: t ∧ c.isDigit = false := by
    obtain ⟨a, rfl | ha, b, hb, rfl⟩ := hu
    · obtain ⟨c, s, ds, hc, -, -, rfl⟩ := mem_exponent.1 (hb.resolve_left hn)
      exact ⟨c, s ++ ds, rfl, isDigit_of_mark hc⟩
    · obtain ⟨ds, -, rfl⟩ := mem_fraction.1 ha
      exact ⟨'.', ds ++ b, rfl, rfl⟩
  exact length_takeWhile_of_stop hw hc _

theorem greedy_number : Greedy numberTail numberExtent := by
  have h := greedy_digits.mul (greedy_fraction.mul greedy_exponent
    fun w hw u hu hn v => fractionExtent_append_exponent hw hu hn v)
    fun w hw u hu hn v => digitsExtent_append_tail hw hu hn v
  have he : numberExtent = fun cs =>
      let behind := cs.drop (digitsExtent cs)
      digitsExtent cs +
        (fractionExtent behind + exponentExtent (behind.drop (fractionExtent behind))) := by
    funext cs
    simp only [numberExtent, List.drop_drop, Nat.add_assoc]
  rw [he]
  exact h

theorem greedy_word : Greedy (run Char.isAlphanum) wordExtent := greedy_run Char.isAlphanum

theorem cons_mem_word : c :: w ∈ word ↔ c.isAlpha ∧ w ∈ run Char.isAlphanum := by
  constructor
  · rintro ⟨_, _, h, hc, hw⟩
    cases h
    exact ⟨hc, hw⟩
  · exact fun ⟨hc, hw⟩ => ⟨c, w, rfl, hc, hw⟩

theorem cons_mem_string : c :: w ∈ string ↔ c = '"' ∧ ∃ body ∈ unquoted, w = body ++ ['"'] := by
  rw [string, mul_assoc]
  constructor
  · rintro ⟨_, rfl, _, ⟨body, hb, _, rfl, rfl⟩, h⟩
    cases h
    exact ⟨rfl, body, hb, rfl⟩
  · rintro ⟨rfl, body, hb, rfl⟩
    exact ⟨['"'], rfl, _, ⟨body, hb, ['"'], rfl, rfl⟩, rfl⟩

theorem stringExtent_append (hb : u ∈ unquoted) (v : List Char) :
    stringExtent (u ++ '"' :: v) = some (u.length + 1) := by
  have hr : u ∈ run fun c => decide (c ≠ '"') := fun c hc =>
    decide_eq_true fun he => hb (he ▸ hc)
  rw [stringExtent, if_pos (by simp), length_takeWhile_of_stop hr rfl]

theorem stringExtent_some (h : stringExtent cs = some n) :
    ∃ body ∈ unquoted, ∃ v, cs = body ++ '"' :: v ∧ n = body.length + 1 := by
  have hm : '"' ∈ cs := by
    unfold stringExtent at h
    split at h
    next hc => simpa using hc
    next => cases h
  obtain ⟨body, v, rfl, hb⟩ := List.eq_append_cons_of_mem hm
  rw [stringExtent_append hb] at h
  exact ⟨body, hb, v, rfl, (Option.some.inj h).symm⟩

end

section

variable {c : Char} {k : Kind} {w rest v : List Char}

theorem single_mem_language (h : single? c = some k) : [c] ∈ language k := by
  unfold single? at h
  split at h <;> cases h <;> rfl

theorem isAlphanum_of_single? (h : single? c = some k) : c.isAlphanum = false := by
  unfold single? at h
  split at h <;> cases h <;> rfl

theorem ne_of_isAlphanum (hc : c.isAlphanum) (hd : d.isAlphanum = false) : c ≠ d := by
  rintro rfl
  rw [hd] at hc
  cases hc

theorem extent_of_isAlphanum (hc : c.isAlphanum) (rest : List Char) :
    extent c rest =
      if c.isDigit then .ok (.number, numberExtent rest)
      else .ok (wordKind (c :: rest.take (wordExtent rest)), wordExtent rest) := by
  have hs : single? c = none := by
    cases hs : single? c with
    | none => rfl
    | some k => rw [isAlphanum_of_single? hs] at hc; cases hc
  have ha : c.isDigit ∨ c.isAlpha := by simpa [Char.isAlphanum, or_comm] using hc
  simp only [extent, hs, if_neg (ne_of_isAlphanum hc (d := '>') rfl),
    if_neg (ne_of_isAlphanum hc (d := '<') rfl), if_neg (ne_of_isAlphanum hc (d := '=') rfl),
    if_neg (ne_of_isAlphanum hc (d := '!') rfl), if_neg (ne_of_isAlphanum hc (d := '"') rfl)]
  split
  next => rfl
  next hd => rw [if_pos (ha.resolve_left hd)]

theorem isDigit_of_isAlpha (hc : c.isAlpha) : c.isDigit = false := by
  have hl : 'A'.val ≤ c.val := by
    rcases Bool.or_eq_true_iff.1 hc with h | h
    · exact (of_decide_eq_true h).1
    · exact UInt32.le_trans (by decide) (of_decide_eq_true (Bool.and_eq_true_iff.1 h).1)
  refine Bool.eq_false_iff.2 fun hd => ?_
  have hg := of_decide_eq_true (Bool.and_eq_true_iff.1 hd).2
  exact absurd (UInt32.le_trans hl hg) (by decide)

theorem extent_of_isAlpha (hc : c.isAlpha) (rest : List Char) :
    extent c rest = .ok (wordKind (c :: rest.take (wordExtent rest)), wordExtent rest) := by
  rw [extent_of_isAlphanum (by simp [Char.isAlphanum, hc]), isDigit_of_isAlpha hc]
  rfl

theorem extent_quote (rest : List Char) :
    extent '"' rest = match stringExtent rest with
      | some n => .ok (.string, n)
      | none => .error .unterminatedString := rfl

theorem mem_language_wordKind (hw : w ∈ word) : w ∈ language (wordKind w) := by
  unfold wordKind
  split_ifs with hor hand hnot htrue hfalse
  case neg =>
    refine ⟨hw, ?_⟩
    simp only [keywords, List.forall_mem_cons]
    exact ⟨hor, hand, hnot, htrue, hfalse, by simp⟩
  all_goals assumption

theorem wordKind_of_mem_language (hw : w ∈ language k) (hk : k = .identifier ∨ k ∈ keywords) :
    w ∈ word ∧ wordKind w = k := by
  rcases hk with rfl | hk
  · obtain ⟨hw, hn⟩ := hw
    simp only [keywords, List.forall_mem_cons] at hn
    obtain ⟨hor, hand, hnot, htrue, hfalse, -⟩ := hn
    refine ⟨hw, ?_⟩
    unfold wordKind
    split_ifs with h₁ h₂ h₃ h₄ h₅
    exacts [absurd h₁ hor, absurd h₂ hand, absurd h₃ hnot, absurd h₄ htrue, absurd h₅ hfalse, rfl]
  · simp only [keywords, List.mem_cons, List.not_mem_nil, or_false] at hk
    rcases hk with rfl | rfl | rfl | rfl | rfl <;> cases hw <;>
      exact ⟨⟨_, _, rfl, rfl, List.all_eq_true.1 rfl⟩, rfl⟩

theorem mem_language_of_orEqual (h : orEqual k₂ k₁ rest = (k, n)) (hw : [c, '='] ∈ language k₂)
    (hc : [c] ∈ language k₁) : n ≤ rest.length ∧ c :: rest.take n ∈ language k := by
  unfold orEqual at h
  split at h <;> cases h
  · exact ⟨Nat.le_add_left 1 _, hw⟩
  · exact ⟨Nat.zero_le _, hc⟩

theorem mem_language_of_onlyEqual (h : onlyEqual k' rest = .ok (k, n))
    (hw : [c, '='] ∈ language k') : n ≤ rest.length ∧ c :: rest.take n ∈ language k := by
  unfold onlyEqual at h
  split at h <;> cases h
  exact ⟨Nat.le_add_left 1 _, hw⟩

theorem mem_language_of_extent (h : extent c rest = .ok (k, n)) :
    n ≤ rest.length ∧ c :: rest.take n ∈ language k := by
  unfold extent at h
  split at h
  next hs => cases h; exact ⟨Nat.zero_le _, single_mem_language hs⟩
  next =>
    split_ifs at h with hgt hlt heq hbang hquote hdigit halpha
    · subst hgt; exact mem_language_of_orEqual (Except.ok.inj h) rfl rfl
    · subst hlt; exact mem_language_of_orEqual (Except.ok.inj h) rfl rfl
    · subst heq; exact mem_language_of_onlyEqual h rfl
    · subst hbang; exact mem_language_of_onlyEqual h rfl
    · subst hquote
      split at h
      next n' hs =>
        cases h
        obtain ⟨body, hb, v, rfl, rfl⟩ := stringExtent_some hs
        have ht : (body ++ '"' :: v).take (body.length + 1) = body ++ ['"'] := by
          simp [List.take_append]
        rw [ht]
        exact ⟨by simp, cons_mem_string.2 ⟨rfl, body, hb, rfl⟩⟩
      next => cases h
    · cases h
      exact ⟨greedy_number.le_length rest, cons_mem_number.2 ⟨hdigit, greedy_number.mem rest⟩⟩
    · cases h
      exact ⟨greedy_word.le_length rest,
        mem_language_wordKind (cons_mem_word.2 ⟨halpha, greedy_word.mem rest⟩)⟩

theorem extent_of_mem_language (h : c :: w ∈ language k) (v : List Char) :
    ∃ k' n, extent c (w ++ v) = .ok (k', n) ∧ w.length ≤ n ∧ (v = [] → k' = k) := by
  cases k
  case leftParen | rightParen | comma | question | colon | plus | minus | star | slash | percent
    | caret | bangEqual | equalEqual | greaterEqual | lessEqual =>
    cases h
    exact ⟨_, _, rfl, Nat.le_refl _, fun _ => rfl⟩
  case greater | less =>
    cases h
    rcases v with _ | ⟨d, v⟩
    · exact ⟨_, _, rfl, Nat.le_refl _, fun _ => rfl⟩
    · exact ⟨_, _, rfl, Nat.zero_le _, fun h => nomatch h⟩
  case number =>
    obtain ⟨hc, hw⟩ := cons_mem_number.1 h
    refine ⟨.number, numberExtent (w ++ v), ?_, greedy_number.length_le w hw v, fun _ => rfl⟩
    rw [extent_of_isAlphanum (by simp [Char.isAlphanum, hc]), if_pos hc]
  case string =>
    obtain ⟨rfl, body, hb, rfl⟩ := cons_mem_string.1 h
    refine ⟨.string, body.length + 1, ?_, by simp, fun _ => rfl⟩
    rw [List.append_assoc, List.singleton_append, extent_quote, stringExtent_append hb]
  case endOfInput => cases h
  all_goals
    obtain ⟨hw, hk⟩ := wordKind_of_mem_language h (by decide)
    obtain ⟨hc, hr⟩ := cons_mem_word.1 hw
    refine ⟨_, _, extent_of_isAlpha hc (w ++ v), greedy_word.length_le w hr v, ?_⟩
    rintro rfl
    rw [List.append_nil, greedy_word.eq_length hr, List.take_length, hk]

end

end Lexeme

end Formulae
