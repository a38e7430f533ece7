import Formulae.Proofs.Evaluation.Layout
import Formulae.Proofs.Parsing.Layout
import Formulae.Proofs.Reports

namespace Formulae

section

variable {R : Location → Location → Prop} {A : α → α → Prop} {B : β → β → Prop}

namespace Run

abbrev Blind (R : Location → Location → Prop) (A : α → α → Prop) (x x' : Run α) : Prop :=
  Simulates Eq (Fault.Reported R) A x x'

namespace Blind

theorem note (f : Journal → Journal) : Blind R Eq (modifyThe Journal f) (modifyThe Journal f) :=
  .modify fun _ _ h => congrArg f h

theorem stage {before : Pipeline γ α} {stage : Stage α β}
    (hb : Blind R A (before.run c) (before.run c'))
    (hs : ∀ a a', A a a' → Blind R B (stage.run a) (stage.run a')) :
    Blind R B ((before.append stage).run c) ((before.append stage).run c') :=
  hb.bind fun a a' ha => (note _).bind fun _ _ _ => hs a a' ha

theorem outcome {x x' : Run α} (h : Blind R A x x') :
    SameOutcome R A x.outcome.1 x'.outcome.1 ∧ x.outcome.2 = x'.outcome.2 := by
  have h := h {} {} rfl
  rw [Run.outcome, Run.outcome]
  generalize x {} = r, x' {} = r' at h ⊢
  cases h with
  | ok ha hj => exact ⟨.ok ha, hj⟩
  | error hf hj => exact ⟨.error hf, hj⟩

end Blind

end Run

end

namespace Session

open Run (Blind)

variable {R : Location → Location → Prop} {a b : String} {ts us : List Token}

theorem tokenize_alike (ha : lex a = .ok ts) (hb : lex b = .ok us)
    (h : ts.length = us.length) :
    Blind R (fun ts' us' => ts' = ts ∧ us' = us) (tokenize a) (tokenize b) := by
  rw [tokenize, tokenize, ha, hb]
  simp only [h]
  exact (Blind.note _).bind fun _ _ _ => .pure ⟨rfl, rfl⟩

theorem parseTokens_alike (s : Session) (hts : ∃ t ∈ ts, t.kind = .endOfInput)
    (h : List.Forall₂ (Token.Alike R) ts us) :
    Blind R (Expr.Alike R) (s.parseTokens ts) (s.parseTokens us) := by
  rw [parseTokens, parseTokens]
  have hp := parse_alike h s.maxParseDepth
  generalize hr : Formulae.parse s.maxParseDepth ts = r,
    Formulae.parse s.maxParseDepth us = r' at hp
  cases hp with
  | ok he => exact .pure he
  | @error e e' he =>
    obtain ⟨t, -, ht⟩ := shown_of_parse_error hts hr
    have hs := he.shown
    generalize hu : e'.shown? = u? at hs
    rw [ht] at hs
    cases hs with
    | some hs =>
      refine .throw ⟨he.case_eq, ?_⟩
      rw [(ParseError.location_of_shown? ht).1, (ParseError.location_of_shown? hu).1]
      exact hs.location

theorem interpret_alike (s : Session) {context : Context} (hc : context.Unlocated)
    (hR : Whole R) (h : Expr.Alike R e f) :
    Blind R Eq (s.interpret context e) (s.interpret context f) := by
  rw [interpret, interpret]
  obtain ⟨ho, hr⟩ := Expr.evaluate_alike hc hR s.maxEvalDepth h
  generalize e.evaluate context s.maxEvalDepth = r,
    f.evaluate context s.maxEvalDepth = r' at ho hr
  obtain ⟨result, requests⟩ := r
  obtain ⟨result', _⟩ := r'
  obtain rfl := hr
  refine (Blind.note _).bind fun _ _ _ => ?_
  cases result <;> cases result' <;> cases ho
  case ok.ok.ok hv => exact .pure hv
  case error.error.error hf => exact .throw hf

theorem parsing_alike (s : Session) (ha : lex a = .ok ts) (hb : lex b = .ok us)
    (h : List.Forall₂ (Token.Alike R) ts us) :
    Blind R (Expr.Alike R) (s.parsing.run a) (s.parsing.run b) := by
  have ht : Blind R (fun ts' us' => ts' = ts ∧ us' = us)
      ((Pipeline.empty.append ⟨"Formula.tokenize", tokenize⟩).run a)
      ((Pipeline.empty.append ⟨"Formula.tokenize", tokenize⟩).run b) := by
    refine .stage (A := fun a' b' => a' = a ∧ b' = b) (.pure ⟨rfl, rfl⟩) ?_
    rintro _ _ ⟨rfl, rfl⟩
    exact tokenize_alike ha hb h.length_eq
  refine .stage ht ?_
  rintro _ _ ⟨rfl, rfl⟩
  exact s.parseTokens_alike (lex_endOfInput ha) h

theorem evaluate_alike (s : Session) {context : Context} (hc : context.Unlocated)
    (hR : Whole R) (ha : lex a = .ok ts) (hb : lex b = .ok us)
    (h : List.Forall₂ (Token.Alike R) ts us) :
    Blind R Eq (s.evaluate context a) (s.evaluate context b) := by
  have hv : Blind R Eq ((s.evaluating context).run a) ((s.evaluating context).run b) :=
    .stage (s.parsing_alike ha hb h) fun e f he => s.interpret_alike hc hR he
  refine hv.bind ?_
  rintro v _ rfl
  exact (Blind.note _).bind fun _ _ _ => .pure rfl

end Session

theorem Givens.unlocated {g : Givens} (hg : ∀ fault, g.Raises fault → fault.Unlocated) :
    g.context.Unlocated :=
  fun _ _ _ h => (g.refusal hg h).unlocated

def SamePlace (ts us : List Token) (l m : Location) : Prop :=
  ∃ (i : Nat) (t u : Token), ts[i]? = some t ∧ us[i]? = some u ∧
    t.location = l ∧ u.location = m

theorem whole_samePlace (ts us : List Token) : Whole (SamePlace ts us) := by
  rintro _ _ ⟨_, t, u, -, -, rfl, rfl⟩
  exact ⟨rfl, rfl⟩

theorem alike_samePlace {ts us : List Token}
    (h : ts.map (fun t => (t.kind, t.lexeme)) = us.map fun t => (t.kind, t.lexeme)) :
    List.Forall₂ (Token.Alike (SamePlace ts us)) ts us := by
  have hlen : ts.length = us.length := by simpa using congrArg List.length h
  refine List.forall₂_iff_get.2 ⟨hlen, fun i ht hu => ?_⟩
  have hi : (ts[i].kind, ts[i].lexeme) = (us[i].kind, us[i].lexeme) := by
    simpa [ht, hu] using congrArg (fun pairs => pairs[i]?) h
  exact ⟨congrArg Prod.fst hi, congrArg Prod.snd hi, i, _, _, List.getElem?_eq_getElem ht,
    List.getElem?_eq_getElem hu, rfl, rfl⟩

namespace Session

/-- Texts with the same tokens, whatever their places, are read as the same expression or refused at
the same token, and they are evaluated with the same requests to the same value, or fail in the same
way at the same token, if no function tells a location. -/
theorem layout_irrelevant {g : Givens} (hg : ∀ fault, g.Raises fault → fault.Unlocated)
    (s : Session) {a b : String} {ts us : List Token} (ha : lex a = .ok ts) (hb : lex b = .ok us)
    (h : ts.map (fun t => (t.kind, t.lexeme)) = us.map fun t => (t.kind, t.lexeme)) :
    SameOutcome (SamePlace ts us) (fun e f => e.same f) (s.parse a).outcome.1
        (s.parse b).outcome.1 ∧
      SameOutcome (SamePlace ts us) Eq (s.evaluate g.context a).outcome.1
        (s.evaluate g.context b).outcome.1 ∧
      (s.evaluate g.context a).outcome.2.requests =
        (s.evaluate g.context b).outcome.2.requests := by
  have h := alike_samePlace h
  have hp := (s.parsing_alike ha hb h).outcome
  have he := (s.evaluate_alike (Givens.unlocated hg) (whole_samePlace ts us) ha hb h).outcome
  refine ⟨hp.1.imp fun e f h => ?_, he.1, congrArg Journal.requests he.2⟩
  exact (Expr.same_iff e f).2 (Expr.unplaced_eq_of_alike e h)

/-- `1+f()` on one line and on two, where the function fails. -/
theorem layout_irrelevant_of_call :
    let g : Givens := some fun _ => ⟨[], [("f", fun _ => .error (.host (.value "no")))]⟩
    let ts : List Token := [⟨.number, "1", 1, 1⟩, ⟨.plus, "+", 1, 2⟩, ⟨.identifier, "f", 1, 3⟩,
      ⟨.leftParen, "(", 1, 4⟩, ⟨.rightParen, ")", 1, 5⟩, ⟨.endOfInput, "", 1, 6⟩]
    let us : List Token := [⟨.number, "1", 1, 1⟩, ⟨.plus, "+", 1, 3⟩, ⟨.identifier, "f", 2, 2⟩,
      ⟨.leftParen, "(", 2, 3⟩, ⟨.rightParen, ")", 2, 5⟩, ⟨.endOfInput, "", 2, 6⟩]
    (∀ fault, g.Raises fault → fault.Unlocated) ∧ lex "1+f()" = .ok ts ∧
      lex "1 +
 f( )" = .ok us ∧
      ts.map (fun t => (t.kind, t.lexeme)) = us.map (fun t => (t.kind, t.lexeme)) ∧
      SameOutcome (SamePlace ts us) Eq (({} : Session).evaluate g.context "1+f()").outcome.1
        (({} : Session).evaluate g.context "1 +
 f( )").outcome.1 := by
  intro g ts us
  have hg : ∀ fault, g.Raises fault → fault.Unlocated := by
    rintro fault ⟨b, earlier, hb, f, hf, args, he⟩
    obtain rfl := Option.some.inj hb
    obtain rfl := List.mem_singleton.1 hf
    cases he
    trivial
  have ha : lex "1+f()" = .ok ts := by decide +kernel
  have hb : lex "1 +
 f( )" = .ok us := by decide +kernel
  exact ⟨hg, ha, hb, rfl, (layout_irrelevant hg {} ha hb rfl).2.1⟩

end Session

end Formulae
