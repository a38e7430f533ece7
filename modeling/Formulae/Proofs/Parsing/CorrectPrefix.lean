import Formulae.Proofs.Parsing.Acceptance
import Formulae.Proofs.Parsing.Lookahead

namespace Formulae

open Formulae.Parser Formulae.Grammar

/-- Some tokens behind these complete a formula, if enough levels are allowed. -/
def Salvageable (tokens : List Token) : Prop :=
  ∃ (more : List Token) (limit : Int) (e : Expr), parse limit (tokens ++ more) = .ok e

theorem parse_mono {limit limit' : Int} (h : limit ≤ limit') (he : parse limit tokens = .ok e) :
    parse limit' tokens = .ok e := by
  obtain ⟨d, last, rest, rfl, hl, rfl, hd⟩ := derivation_of_parse he
  exact parse_word (Int.le_trans hd h) hl rest

theorem Grammar.follows_whole (hd : DownFollows b down) :
    Follows (.phrase .conditional) b (whole down) := by
  intro p
  refine (follows_expression hd).bind (.refl p) (fun d => ⟨d, List.prefix_rfl⟩) fun d q hd hw => ?_
  refine .current hw ⟨d, List.prefix_rfl⟩ fun t ts _ => ?_
  split
  · exact .pure d rfl hd hw
  · exact .throw hw ⟨d, List.prefix_rfl⟩

theorem begins_of_formula (limit : Int) (tokens : List Token) :
    ∃ w, (ofTokens tokens).Passes w (ending (formula limit (ofTokens tokens))) ∧
      Begins (.phrase .conditional) w := by
  have ho := follows_whole (downFollows_nested limit limit.toNat) (ofTokens tokens)
  rw [← formula_ofTokens] at ho
  generalize formula limit (ofTokens tokens) = r at ho ⊢
  cases r with
  | ok e q =>
    obtain ⟨d, -, -, hw⟩ := ho
    exact ⟨d.word, hw, d, List.prefix_rfl⟩
  | error e q => exact ho

theorem begins_of_formula_error (h : formula limit (ofTokens tokens) = .error e q) :
    Begins (.phrase .conditional) (tokens.take q.position) ∧ q.position ≤ tokens.length ∧
      q.rest = tokens.drop q.position := by
  obtain ⟨w, hw, hb⟩ := begins_of_formula limit tokens
  rw [h] at hw
  have hr : tokens = w ++ q.rest := hw.rest_eq
  have hq : q.position = w.length := hw.position_eq.trans (Nat.zero_add _)
  rw [hq, hr]
  exact ⟨by rwa [List.take_left], by simp, by rw [List.drop_left]⟩

theorem Grammar.Begins.completed {tokens : List Token} (h : Begins (.phrase .conditional) tokens) :
    ∃ (more : List Token) (limit : Int) (e : Expr),
      more ≠ [] ∧ parse limit (tokens ++ more) = .ok e := by
  obtain ⟨d, v, hv⟩ := h
  have last : Terminal .endOfInput := default
  refine ⟨v ++ [last.token], d.depth + 1, d.tree, by simp, ?_⟩
  rw [← List.append_assoc, hv]
  exact parse_word (Int.le_refl _) last.kind_eq []

theorem within_formula {limit : Int} (h : tokens.length < limit) :
    Within (formula limit (ofTokens tokens)) := by
  rw [formula_ofTokens]
  refine predictive_whole.within (advances_nested limit _) (within_nested limit _)
    (known_none _) ?_
  simp only [ofTokens, Bool.toNat_true]
  omega

theorem formula_error_of_take_eq {limit limit' : Int} (h : tokens.length < limit)
    (hl : limit ≤ limit') (he : formula limit (ofTokens tokens) = .error e q)
    (ht : tokens'.take (q.position + 1) = tokens.take (q.position + 1)) :
    ∃ q', formula limit' (ofTokens tokens') = .error e q' := by
  have hi := predictive_whole.imitates (advances_nested limit limit.toNat)
    (advances_nested limit' limit'.toNat)
    (imitates_nested (n := q.position + 1) limit limit' (Int.toNat_le_toNat hl))
    (ofTokens tokens) (ofTokens tokens') ⟨ht, rfl, rfl⟩
  have hw := within_formula h
  simp only [← formula_ofTokens, he] at hi hw
  generalize formula limit' (ofTokens tokens') = r' at hi ⊢
  cases hi ⟨Nat.lt_succ_self _, hw⟩ with
  | error _ hq => exact ⟨_, rfl⟩

theorem found?_of_formula_error {limit : Int} (h : tokens.length < limit)
    (he : formula limit (ofTokens tokens) = .error e q) : e.found? = q.rest.head? := by
  have hf := predictive_whole.blamed (advances_nested limit limit.toNat)
    (blamed_nested limit limit.toNat) (known_none (ofTokens tokens))
  rw [← formula_ofTokens] at hf
  obtain ⟨limit', t, rfl⟩ | hf := hf e q he
  · exact absurd he (within_formula h limit' t q)
  · exact hf

theorem not_salvageable_of_formula_error {limit : Int} (h : tokens.length < limit)
    (he : formula limit (ofTokens tokens) = .error e q) (hq : q.position < tokens.length) :
    ¬ Salvageable (tokens.take (q.position + 1)) := by
  rintro ⟨more, limit', e', hp⟩
  have hp := parse_mono (Int.le_max_right limit limit') hp
  have ht : (tokens.take (q.position + 1) ++ more).take (q.position + 1) =
      tokens.take (q.position + 1) := by
    rw [List.take_append_of_le_length (by simp; omega), List.take_take, Nat.min_self]
  obtain ⟨q', hf⟩ := formula_error_of_take_eq h (Int.le_max_left limit limit') he ht
  rw [parse, hf] at hp
  cases hp

theorem ParseError.kind_of_found? {e : ParseError} (h : e.found? = some t) :
    e.toDiagnostic.kind ∈ [.unexpectedToken t, .expectedClosingParen, .expectedColon,
      .expectedClosingParenInCall] ∧ e.toDiagnostic.location = t.location := by
  cases e <;> cases h <;> simp [toDiagnostic, endExpectedDiagnostic, operandExpectedDiagnostic,
    colonExpectedDiagnostic, parenExpectedDiagnostic, callUnclosedDiagnostic]

/-- A parser that fails has blamed the first token that no formula has behind the ones before it; if
there is none, it has found no end. -/
theorem formula_error_correct_prefix {limit : Int} (h : tokens.length < limit)
    (he : formula limit (ofTokens tokens) = .error e q) :
    q.position ≤ tokens.length ∧
    (∀ hi : q.position < tokens.length,
      e.toDiagnostic.kind ∈ [.unexpectedToken tokens[q.position], .expectedClosingParen,
        .expectedColon, .expectedClosingParenInCall] ∧
      e.toDiagnostic.location = tokens[q.position].location ∧
      Salvageable (tokens.take q.position) ∧ ¬ Salvageable (tokens.take (q.position + 1))) ∧
    (q.position = tokens.length →
      e.toDiagnostic.kind = .missingEnd ∧
      ∃ (more : List Token) (limit' : Int) (e' : Expr),
        more ≠ [] ∧ parse limit' (tokens ++ more) = .ok e') := by
  obtain ⟨hb, hq, hr⟩ := begins_of_formula_error he
  obtain ⟨more, limit', e', hm, hp⟩ := hb.completed
  have hf : e.found? = tokens[q.position]? := by
    rw [← List.head?_drop, ← hr]
    exact found?_of_formula_error h he
  refine ⟨hq, fun hi => ?_, fun hi => ?_⟩
  · obtain ⟨hk, hl⟩ := ParseError.kind_of_found? (hf.trans (List.getElem?_eq_getElem hi))
    exact ⟨hk, hl, ⟨more, limit', e', hp⟩, not_salvageable_of_formula_error h he hi⟩
  · rw [hi, List.take_length] at hp
    refine ⟨?_, more, limit', e', hm, hp⟩
    rw [hi, List.getElem?_eq_none (Nat.le_refl _)] at hf
    cases e with
    | endMissing => rfl
    | tooDeep limit'' t => exact absurd he (within_formula h limit'' t q)
    | _ => cases hf

/-- `(1,`, where the comma is blamed. -/
theorem correct_prefix_of_unclosed :
    let opening : Token := ⟨.leftParen, "(", 1, 1⟩
    let one : Token := ⟨.number, "1", 1, 2⟩
    let comma : Token := ⟨.comma, ",", 1, 3⟩
    formula 4 (ofTokens [opening, one, comma]) =
        .error (.parenExpected opening comma) ⟨[comma], 2, 1⟩ ∧
      Salvageable [opening, one] ∧ ¬ Salvageable [opening, one, comma] := by
  intro opening one comma
  have he : formula 4 (ofTokens [opening, one, comma]) =
    .error (.parenExpected opening comma) ⟨[comma], 2, 1⟩ := rfl
  obtain ⟨-, h, -⟩ := formula_error_correct_prefix (by decide) he
  exact ⟨he, (h (by decide)).2.2⟩

end Formulae
