import Formulae.Bindings
import Formulae.Proofs.Evaluation.Refusals
import Formulae.Proofs.Lexing.Places
import Formulae.Proofs.Parsing.Blame
import Formulae.Proofs.Session

namespace Formulae

/-- The diagnostics that speak of a mistake of the program. -/
def Diagnostic.Internal (d : Diagnostic) : Prop :=
  d.kind = .missingEnd ∨
    d.kind = .eval ∧ ∃ name, d.message = (EvalError.unknownNodeDiagnostic name).message

/-- What a session may be given to evaluate in: nothing, or bindings, which may be others after
other requests. -/
abbrev Givens := Option (List Request → Bindings)

namespace Givens

def context : Givens → Context
  | none => .noBindings
  | some b => ⟨fun earlier => (b earlier).context.answer earlier⟩

def Raises (g : Givens) (fault : Fault) : Prop :=
  ∃ b earlier, g = some b ∧ ∃ f ∈ (b earlier).functions, ∃ args, f.2 args = .error fault

end Givens

theorem Diagnostic.not_internal {d : Diagnostic} (hm : d.kind ≠ .missingEnd) (he : d.kind ≠ .eval) :
    ¬ d.Internal := by
  rintro (h | h)
  · exact hm h
  · exact he h.1

theorem append_ne_append {s t : String} (n : Nat) (hs : n ≤ s.toList.length)
    (ht : n ≤ t.toList.length) (h : s.toList.take n ≠ t.toList.take n) (u v : String) :
    s ++ u ≠ t ++ v := by
  intro he
  have he := congrArg (fun s => s.toList.take n) he
  simp only [String.toList_append, List.take_append_of_le_length hs,
    List.take_append_of_le_length ht] at he
  exact h he

theorem EvalError.not_internal_raised (error : HostError) (context : Option String) (l : Location) :
    ¬ (raisedDiagnostic error context l).Internal := by
  rintro (h | ⟨-, name, h⟩)
  · cases h
  · exact append_ne_append 3 (by decide) (by decide) (by decide) _ _ h

theorem EvalError.own_toDiagnostic {error : EvalError} {limit : Int} {top : Nat}
    (h : error.Own limit top) (l : Location) :
    (error.toDiagnostic l).location = l ∧ ¬ (error.toDiagnostic l).Internal := by
  cases error
  case notCallable | unknownNode | raised | raisedByFunction => cases h
  all_goals exact ⟨rfl, Diagnostic.not_internal nofun nofun⟩

theorem Bindings.not_internal_unsupportedResult {d : Diagnostic}
    (h : unsupportedResult name typeName = .diagnostic d) : ¬ d.Internal := by
  cases h
  rintro (h | ⟨-, n, h⟩)
  · cases h
  · simp only [String.append_assoc] at h
    exact append_ne_append 3 (by decide) (by decide) (by decide) _ _ h

namespace Givens

structure Refusal (g : Givens) (r : Request) (fault : Fault) : Prop where
  unlocated : fault.Unlocated
  invoked : ∀ error, fault = .host error → ∃ name args, r = .invoke name args
  raised : ∀ d, fault = .diagnostic d → d.Internal → g.Raises fault

theorem Refusal.unsupported (g : Givens) (r : Request) (message context suggestion : String) :
    g.Refusal r (Context.unsupported message context suggestion) where
  unlocated := rfl
  invoked := nofun
  raised := by
    rintro _ ⟨⟩ h
    exact absurd h (Diagnostic.not_internal nofun nofun)

variable {g : Givens} {b : List Request → Bindings}

theorem Refusal.result (h : Bindings.result name native = .error fault) :
    g.Refusal (.invoke name args) fault := by
  unfold Bindings.result at h
  split at h
  next typeName =>
    cases h
    refine ⟨rfl, nofun, ?_⟩
    rintro d hd hi
    exact absurd hi (Bindings.not_internal_unsupportedResult hd)
  next =>
    split at h <;> cases h
    refine ⟨trivial, fun _ _ => ⟨name, args, rfl⟩, ?_⟩
    rintro d ⟨⟩

theorem refusal (hg : ∀ fault, g.Raises fault → fault.Unlocated)
    (h : g.context.answer earlier r = .error fault) : g.Refusal r fault := by
  cases g with
  | none =>
    cases r <;> cases h <;> exact .unsupported _ _ _ _ _
  | some b =>
    cases r with
    | resolve name =>
      change (b earlier).resolve name = _ at h
      unfold Bindings.resolve at h
      split at h <;> cases h
      exact .unsupported _ _ _ _ _
    | invoke name args =>
      change (b earlier).invoke name args = _ at h
      unfold Bindings.invoke at h
      split at h
      next => cases h; exact .unsupported _ _ _ _ _
      next function hf =>
        split at h
        next => exact .result h
        next fault' he =>
          cases h
          obtain ⟨l, l', hl, -⟩ := List.lookup_eq_some_iff.1 hf
          have hr : Raises (some b) fault :=
            ⟨b, earlier, rfl, (name, function), by simp [hl], args, he⟩
          exact ⟨hg fault hr, fun _ _ => ⟨name, args, rfl⟩, fun _ _ _ => hr⟩

end Givens

theorem Expr.reported_of_evaluate {g : Givens} {limit limit' : Int} {e : Expr} {d : Diagnostic}
    (hg : ∀ fault, g.Raises fault → fault.Unlocated) (hparse : parse limit tokens = .ok e)
    (h : (e.evaluate g.context limit').1 = .error d) :
    (∃ t ∈ tokens, t.location = d.location) ∧
      (d.Internal → ∃ d', g.Raises (.diagnostic d') ∧ d = d'.locate d.location) := by
  have hread := readFrom_of_parse hparse
  have hends := evaluate_ends g.context limit' fun n hn => (hread n hn).regular
  rw [evaluate, conclude] at h
  generalize e.evalAt g.context limit' 0 [] = result at hends h
  cases hends with
  | value hs => cases h
  | @refused before n r fault later hs hn ha hr =>
    have hf := Givens.refusal hg hr
    obtain ⟨t, ht, hnt⟩ := (hread n (mem_nodes_of_mem_askers e (hn.subset (by simp)))).token
    cases fault with
    | diagnostic d' =>
      have hl : (d'.locate n.location).location = n.location := by
        rw [hnt]
        exact Diagnostic.location_locate hf.unlocated t.line t.column
      rw [passOn_diagnostic] at h
      cases h
      exact ⟨⟨t, ht, (hl.trans hnt).symm⟩,
        fun hi => ⟨d', hf.raised d' rfl hi, (congrArg d'.locate hl).symm⟩⟩
    | host error =>
      obtain ⟨name, args, rfl⟩ := hf.invoked error rfl
      cases ha
      cases h
      exact ⟨⟨t, ht, hnt.symm⟩, fun hi => absurd hi (EvalError.not_internal_raised _ _ _)⟩
  | failed hs hn hf =>
    obtain ⟨n, hn, error, ho, rfl⟩ := hf
    obtain ⟨t, ht, hnt⟩ := (hread n hn).token
    cases h
    obtain ⟨hl, hi⟩ := EvalError.own_toDiagnostic ho n.location
    exact ⟨⟨t, ht, (hl.trans hnt).symm⟩, fun h => absurd h hi⟩

namespace Session

/-- A session comes to a value or reports a diagnostic with a location in the text. It speaks of a
mistake of the program only if a function that was given fails with the same diagnostic. -/
theorem evaluate_reports {g : Givens} (hg : ∀ fault, g.Raises fault → fault.Unlocated)
    (s : Session) (text : String) :
    (∃ v, (s.evaluate g.context text).outcome.1 = .ok v) ∨
      ∃ d, (s.evaluate g.context text).outcome.1 = .error (.diagnostic d) ∧
        InText text d.location ∧
        (d.Internal → ∃ d', g.Raises (.diagnostic d') ∧ d = d'.locate d.location) := by
  cases hlex : lex text with
  | error e =>
    refine .inr ⟨_, outcome_of_lex_error _ hlex, inText_of_error hlex, fun hi => absurd hi ?_⟩
    obtain hk | ⟨c, hk⟩ := e.kind_eq_or
    all_goals exact Diagnostic.not_internal (by rw [hk]; nofun) (by rw [hk]; nofun)
  | ok tokens =>
    cases hparse : Formulae.parse s.maxParseDepth tokens with
    | error e =>
      obtain ⟨t, ht, hs⟩ := shown_of_parse_error (lex_endOfInput hlex) hparse
      obtain ⟨hl, hm, he⟩ := ParseError.location_of_shown? hs
      exact .inr ⟨_, outcome_of_parse_error _ hlex hparse, hl ▸ inText_of_mem hlex ht,
        fun hi => absurd hi (Diagnostic.not_internal hm he)⟩
    | ok e =>
      rw [outcome_of_parse _ hlex hparse]
      cases hd : (e.evaluate g.context s.maxEvalDepth).1 with
      | ok v => exact .inl ⟨v, rfl⟩
      | error d =>
        obtain ⟨⟨t, ht, hl⟩, hi⟩ := Expr.reported_of_evaluate hg hparse hd
        exact .inr ⟨d, rfl, hl ▸ inText_of_mem hlex ht, hi⟩

/-- `1 + f()`, where the function fails. -/
theorem evaluate_reports_of_call :
    let g : Givens := some fun _ => ⟨[], [("f", fun _ => .error (.host (.value "no")))]⟩
    (∀ fault, g.Raises fault → fault.Unlocated) ∧
      ∃ d, (({} : Session).evaluate g.context "1 + f()").outcome.1 = .error (.diagnostic d) ∧
        InText "1 + f()" d.location ∧ d.location = .ofPair 1 5 := by
  intro g
  have hg : ∀ fault, g.Raises fault → fault.Unlocated := by
    rintro fault ⟨b, earlier, hb, f, hf, args, he⟩
    obtain rfl := Option.some.inj hb
    obtain rfl := List.mem_singleton.1 hf
    cases he
    trivial
  have hlex : lex "1 + f()" = .ok [⟨.number, "1", 1, 1⟩, ⟨.plus, "+", 1, 3⟩,
      ⟨.identifier, "f", 1, 5⟩, ⟨.leftParen, "(", 1, 6⟩, ⟨.rightParen, ")", 1, 7⟩,
      ⟨.endOfInput, "", 1, 8⟩] := by decide +kernel
  have ho : (({} : Session).evaluate g.context "1 + f()").outcome.1 = .error (.diagnostic
      ((EvalError.raisedByFunction "f" (.value "no")).toDiagnostic (.ofPair 1 5))) := by
    rw [outcome_of_parse g.context hlex rfl]
    decide +kernel
  obtain ⟨v, hv⟩ | ⟨d, hd, ht, -⟩ := evaluate_reports hg {} "1 + f()"
  · rw [ho] at hv
    cases hv
  · rw [ho] at hd
    cases hd
    exact ⟨hg, _, ho, ht, rfl⟩

/-- `f()`, where the function fails with a diagnostic of the parser. -/
theorem missingEnd_of_function :
    let d : Diagnostic := { kind := .missingEnd, message := "no end" }
    let g : Givens := some fun _ => ⟨[], [("f", fun _ => .error (.diagnostic d))]⟩
    (∀ fault, g.Raises fault → fault.Unlocated) ∧
      (({} : Session).evaluate g.context "f()").outcome.1 =
        .error (.diagnostic { d with location := .ofPair 1 1 }) := by
  intro d g
  refine ⟨?_, ?_⟩
  · rintro fault ⟨b, earlier, hb, f, hf, args, he⟩
    obtain rfl := Option.some.inj hb
    obtain rfl := List.mem_singleton.1 hf
    cases he
    rfl
  · have hlex : lex "f()" = .ok [⟨.identifier, "f", 1, 1⟩, ⟨.leftParen, "(", 1, 2⟩,
        ⟨.rightParen, ")", 1, 3⟩, ⟨.endOfInput, "", 1, 4⟩] := by decide +kernel
    rw [outcome_of_parse g.context hlex rfl]
    decide +kernel

end Session

end Formulae
