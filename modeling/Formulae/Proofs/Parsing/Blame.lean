import Formulae.Proofs.Parsing.Compositional
import Formulae.Proofs.Parsing.CorrectPrefix

namespace Formulae

def ParseError.shown? : ParseError → Option Token
  | .tooDeep _ t => some t
  | e => e.found?

namespace Parser

def Shows (S : List Token) : EStateM.Result ParseError Parser α → Prop
  | .ok _ q => q.rest ⊆ S
  | .error e _ => ∀ t, e.shown? = some t → t ∈ S

def Candid (S : List Token) (x : Parse α) : Prop := ∀ p, p.rest ⊆ S → Shows S (x p)

theorem compositional_candid (S : List Token) : Compositional (· ∈ S) (Candid S) where
  pure _ _ hp := hp
  bind {_ _ x f} hx hf p hp := by
    have hx := hx p hp
    simp only [Bind.bind, EStateM.bind]
    split
    next a q hq =>
      rw [hq] at hx
      exact hf a q hx
    next e q hq =>
      rw [hq] at hx
      exact hx
  get _ hp := hp
  look {_ f} hf := by
    rintro ⟨_ | ⟨t, ts⟩, i, n⟩ hp
    · rintro t ⟨⟩
    · exact hf t (hp List.mem_cons_self) _ hp
  advance := by
    rintro ⟨_ | ⟨t, ts⟩, i, n⟩ hp
    · exact hp
    · exact List.Subset.trans (List.subset_cons_self t ts) hp
  opened _ hp := hp
  close _ hp := hp
  blame {_ e _} ht h p _ u hu := by
    cases e <;> cases h <;> cases hu <;> exact ht
  refuse _ ht p _ := by
    rintro u ⟨⟩
    exact ht

end Parser

open Formulae.Parser Formulae.Grammar

theorem formula_of_parse_error {limit : Int} (h : parse limit tokens = .error e) :
    ∃ q, formula limit (ofTokens tokens) = .error e q := by
  rw [parse] at h
  split at h
  next => cases h
  next q hq => cases h; exact ⟨q, hq⟩

theorem ParseError.eq_endMissing {e : ParseError} (h : e.shown? = none) : e = .endMissing := by
  cases e <;> first | rfl | cases h

/-- The end is found if there is one, for it is in no word of the grammar. -/
theorem formula_ne_endMissing {limit : Int} (hend : ∃ t ∈ tokens, t.kind = .endOfInput)
    (q : Parser) : formula limit (ofTokens tokens) ≠ .error .endMissing q := by
  intro h
  have hf := predictive_whole.blamed (advances_nested limit limit.toNat)
    (blamed_nested limit limit.toNat) (known_none (ofTokens tokens))
  rw [← formula_ofTokens] at hf
  obtain ⟨⟨d, hd⟩, -, hr⟩ := begins_of_formula_error h
  have hq : q.rest = [] := by
    obtain ⟨limit', t, ⟨⟩⟩ | hf := hf .endMissing q h
    exact List.head?_eq_none_iff.1 hf.symm
  obtain ⟨t, ht, hk⟩ := hend
  rw [hr, List.drop_eq_nil_iff] at hq
  rw [List.take_of_length_le hq] at hd
  exact kind_ne_endOfInput d t (hd.subset ht) hk

theorem shown_of_parse_error {limit : Int} (hend : ∃ t ∈ tokens, t.kind = .endOfInput)
    (h : parse limit tokens = .error e) : ∃ t ∈ tokens, e.shown? = some t := by
  obtain ⟨q, hq⟩ := formula_of_parse_error h
  cases hs : e.shown? with
  | none =>
    rw [ParseError.eq_endMissing hs] at hq
    exact absurd hq (formula_ne_endMissing hend q)
  | some t =>
    have hc := (compositional_candid tokens).formula limit (ofTokens tokens) (List.Subset.refl _)
    rw [hq] at hc
    exact ⟨t, hc t hs, rfl⟩

theorem ParseError.location_of_shown? {e : ParseError} (h : e.shown? = some t) :
    e.toDiagnostic.location = t.location ∧ e.toDiagnostic.kind ≠ .missingEnd ∧
      e.toDiagnostic.kind ≠ .eval := by
  cases e <;> cases h <;> exact ⟨rfl, nofun, nofun⟩

end Formulae
