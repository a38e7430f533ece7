import Formulae.Proofs.Parsing.Unambiguity

namespace Formulae

open Formulae.Parser Formulae.Grammar

theorem formula_word {d : Derivation (.phrase .conditional)} {limit : Int}
    (hd : d.depth + 1 ≤ limit) (hl : last.kind = .endOfInput) (rest : List Token) :
    formula limit (ofTokens (d.word ++ last :: rest)) =
      .ok d.tree ⟨last :: rest, d.word.length, 0⟩ := by
  have hk : Symbol.EndsBefore (.phrase .conditional) (last :: rest) :=
    Level.EndsAt.of_continued?_eq_none (by rw [hl]; rfl)
  have he := (taken limit d _ hk).expression (limit - (0 : Nat)).toNat (by omega) 0 0
  rw [Nat.zero_add] at he
  refine (bind_ok he).trans ?_
  rw [current_bind, if_pos hl]
  rfl

theorem parse_word {d : Derivation (.phrase .conditional)} {limit : Int}
    (hd : d.depth + 1 ≤ limit) (hl : last.kind = .endOfInput) (rest : List Token) :
    parse limit (d.word ++ last :: rest) = .ok d.tree := by
  rw [parse, formula_word hd hl]

theorem derivation_of_formula_ok {limit : Int}
    (h : formula limit (ofTokens tokens) = .ok e q) :
    ∃ (d : Derivation (.phrase .conditional)) (last : Token) (rest : List Token),
      tokens = d.word ++ last :: rest ∧ last.kind = .endOfInput ∧ d.tree = e ∧
        d.depth + 1 ≤ limit := by
  obtain ⟨e', q', he, hr⟩ :=
    eq_ok_of_bind (x := expression (nested limit (limit - (0 : Nat)).toNat)) h
  obtain ⟨last, r, hc, hk⟩ := eq_ok_of_bind hr
  obtain ⟨rfl, rest, hq⟩ := current_eq_ok hc
  have ho := follows_expression (downFollows_nested limit (limit - (0 : Nat)).toNat)
    (ofTokens tokens)
  rw [he] at ho
  obtain ⟨d, hd, hdepth, hw⟩ := ho
  split at hk
  case isTrue hl =>
    cases hk
    exact ⟨d, last, rest, by rw [← hq]; exact hw.rest_eq, hl, hd, by omega⟩
  case isFalse => cases hk

theorem derivation_of_parse {limit : Int} (h : parse limit tokens = .ok e) :
    ∃ (d : Derivation (.phrase .conditional)) (last : Token) (rest : List Token),
      tokens = d.word ++ last :: rest ∧ last.kind = .endOfInput ∧ d.tree = e ∧
        d.depth + 1 ≤ limit := by
  rw [parse] at h
  split at h
  next e' q hq => cases h; exact derivation_of_formula_ok hq
  next => cases h

/-- Exactly the words of the grammar are accepted, up to the first token for the end of the input
and as deep as the limit allows, for the expressions that they stand for; and a word has one
derivation at most. -/
theorem parse_eq_ok_iff_derivation (limit : Int) (tokens : List Token) :
    (∀ e, parse limit tokens = .ok e ↔
      ∃ (d : Derivation (.phrase .conditional)) (last : Token) (rest : List Token),
        tokens = d.word ++ last :: rest ∧ (∀ t ∈ d.word, t.kind ≠ .endOfInput) ∧
          last.kind = .endOfInput ∧ d.tree = e ∧ d.depth + 1 ≤ limit) ∧
    ∀ d d' : Derivation (.phrase .conditional), d.word = d'.word → d = d' := by
  refine ⟨fun e => ⟨fun h => ?_, ?_⟩, fun d d' h => unique d d' h⟩
  · obtain ⟨d, last, rest, ht, hl, he, hd⟩ := derivation_of_parse h
    exact ⟨d, last, rest, ht, kind_ne_endOfInput d, hl, he, hd⟩
  · rintro ⟨d, last, rest, rfl, -, hl, rfl, hd⟩
    exact parse_word hd hl rest

end Formulae
