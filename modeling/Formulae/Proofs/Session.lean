import Formulae.Proofs.Sequences
import Formulae.Session

namespace Formulae

namespace Run

def Yields (x : Run α) (r : Except Fault α) : Prop :=
  ∀ j, ∃ j', x j = match r with
    | .ok a => .ok a j'
    | .error fault => .error fault j'

theorem Yields.outcome {x : Run α} (h : x.Yields r) : x.outcome.1 = r := by
  obtain ⟨j, h⟩ := h {}
  rw [Run.outcome, h]
  cases r <;> rfl

theorem yields_pure (a : α) : Yields (pure a) (pure a) := fun j => ⟨j, rfl⟩

theorem yields_throw (fault : Fault) : Yields (throw fault : Run α) (.error fault) :=
  fun j => ⟨j, rfl⟩

theorem yields_modify (f : Journal → Journal) : Yields (modify f) (pure ()) := fun j => ⟨f j, rfl⟩

theorem Yields.bind {x : Run α} {f : α → Run β} {r : Except Fault α} {g : α → Except Fault β}
    (hx : x.Yields r) (hf : ∀ a, (f a).Yields (g a)) : (x >>= f).Yields (r >>= g) := by
  intro j
  obtain ⟨j', hx⟩ := hx j
  cases r with
  | ok a =>
    obtain ⟨j'', hf⟩ := hf a j'
    exact ⟨j'', (bind_ok hx).trans hf⟩
  | error fault => exact ⟨j', bind_error hx⟩

theorem yields_empty (a : α) : (Pipeline.empty.run a).Yields (pure a) := fun j => ⟨j, rfl⟩

theorem Yields.append {before : Pipeline α β} {stage : Stage β γ} {r : Except Fault β}
    {g : β → Except Fault γ} (hb : (before.run a).Yields r) (hs : ∀ b, (stage.run b).Yields (g b)) :
    ((before.append stage).run a).Yields (r >>= g) :=
  hb.bind fun b => (yields_modify _).bind fun _ => hs b

end Run

namespace Session

open Run

theorem yields_tokenize (text : String) :
    (tokenize text).Yields ((lex text).mapError fun e => .diagnostic e.toDiagnostic) := by
  rw [tokenize]
  cases lex text with
  | ok tokens => exact (yields_modify _).bind fun _ => yields_pure tokens
  | error e => exact yields_throw _

theorem yields_parseTokens (s : Session) (tokens : List Token) :
    (s.parseTokens tokens).Yields
      ((Formulae.parse s.maxParseDepth tokens).mapError fun e => .diagnostic e.toDiagnostic) := by
  rw [parseTokens]
  cases Formulae.parse s.maxParseDepth tokens with
  | ok e => exact yields_pure e
  | error e => exact yields_throw _

theorem yields_interpret (s : Session) (context : Context) (e : Expr) :
    (s.interpret context e).Yields
      ((e.evaluate context s.maxEvalDepth).1.mapError .diagnostic) := by
  rw [interpret]
  obtain ⟨result, requests⟩ := e.evaluate context s.maxEvalDepth
  refine (yields_modify _).bind (g := fun _ => result.mapError .diagnostic) fun _ => ?_
  cases result with
  | ok v => exact yields_pure v
  | error d => exact yields_throw _

theorem yields_evaluate (s : Session) (context : Context) (text : String) :
    (s.evaluate context text).Yields (do
      let tokens ← (lex text).mapError fun e => .diagnostic e.toDiagnostic
      let e ← (Formulae.parse s.maxParseDepth tokens).mapError fun e => .diagnostic e.toDiagnostic
      (e.evaluate context s.maxEvalDepth).1.mapError .diagnostic) := by
  have hrun : ((s.evaluating context).run text).Yields _ :=
    (((yields_empty text).append yields_tokenize).append s.yields_parseTokens).append
      (s.yields_interpret context)
  have h : (s.evaluate context text).Yields _ :=
    hrun.bind fun v => (yields_modify _).bind fun _ => yields_pure v
  simp only [pure_bind, bind_pure, bind_assoc] at h
  exact h

theorem yields_parse (s : Session) (text : String) :
    (s.parse text).Yields (do
      let tokens ← (lex text).mapError fun e => .diagnostic e.toDiagnostic
      (Formulae.parse s.maxParseDepth tokens).mapError fun e => .diagnostic e.toDiagnostic) := by
  have h : (s.parse text).Yields _ :=
    ((yields_empty text).append yields_tokenize).append s.yields_parseTokens
  simp only [pure_bind] at h
  exact h

variable {s : Session} {text : String} {tokens : List Token}

theorem parse_eq_ok_iff {e : Expr} : (s.parse text).outcome.1 = .ok e ↔
    ∃ tokens, lex text = .ok tokens ∧ Formulae.parse s.maxParseDepth tokens = .ok e := by
  rw [(s.yields_parse text).outcome]
  cases lex text with
  | error e' => exact iff_of_false nofun fun ⟨_, h, _⟩ => nomatch h
  | ok tokens =>
    change (Formulae.parse s.maxParseDepth tokens).mapError _ = _ ↔ _
    refine ⟨fun h => ⟨tokens, rfl, ?_⟩, ?_⟩
    · cases hp : Formulae.parse s.maxParseDepth tokens <;> rw [hp] at h <;> cases h
      rfl
    · rintro ⟨_, ⟨⟩, h⟩
      rw [h]
      rfl

theorem outcome_of_lex_error (context : Context) (h : lex text = .error e) :
    (s.evaluate context text).outcome.1 = .error (.diagnostic e.toDiagnostic) := by
  rw [(s.yields_evaluate context text).outcome, h]
  rfl

theorem outcome_of_parse_error (context : Context) (hlex : lex text = .ok tokens)
    (h : Formulae.parse s.maxParseDepth tokens = .error e) :
    (s.evaluate context text).outcome.1 = .error (.diagnostic e.toDiagnostic) := by
  rw [(s.yields_evaluate context text).outcome, hlex]
  change (Formulae.parse s.maxParseDepth tokens).mapError _ >>= _ = _
  rw [h]
  rfl

theorem outcome_of_parse (context : Context) (hlex : lex text = .ok tokens)
    (h : Formulae.parse s.maxParseDepth tokens = .ok e) :
    (s.evaluate context text).outcome.1 =
      (e.evaluate context s.maxEvalDepth).1.mapError .diagnostic := by
  rw [(s.yields_evaluate context text).outcome, hlex]
  change (Formulae.parse s.maxParseDepth tokens).mapError _ >>= _ = _
  rw [h]
  rfl

theorem exists_of_evaluate_ok {context : Context} {v : Value}
    (h : (s.evaluate context text).outcome.1 = .ok v) :
    ∃ tokens e, lex text = .ok tokens ∧ Formulae.parse s.maxParseDepth tokens = .ok e ∧
      (e.evaluate context s.maxEvalDepth).1 = .ok v := by
  cases hlex : lex text with
  | error e =>
    rw [outcome_of_lex_error context hlex] at h
    cases h
  | ok tokens =>
    cases hparse : Formulae.parse s.maxParseDepth tokens with
    | error e =>
      rw [outcome_of_parse_error context hlex hparse] at h
      cases h
    | ok e =>
      rw [outcome_of_parse context hlex hparse] at h
      refine ⟨tokens, e, rfl, hparse, ?_⟩
      cases hv : (e.evaluate context s.maxEvalDepth).1 with
      | ok w => rw [hv] at h; cases h; rfl
      | error d => rw [hv] at h; cases h

end Session

end Formulae
