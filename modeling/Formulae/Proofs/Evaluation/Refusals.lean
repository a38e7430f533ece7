import Formulae.Lexing
import Formulae.Proofs.Evaluation.Requests
import Formulae.Proofs.Parsing.Trees

namespace Formulae

def Fault.Unlocated : Fault → Prop
  | .diagnostic d => d.location = Location.nowhere
  | .host _ => True

theorem Diagnostic.location_locate (h : d.location = Location.nowhere) (line column : Int) :
    (locate d (.ofPair line column)).location = .ofPair line column := by
  rw [locate, h]
  rfl

namespace Expr

variable {context : Context} {limit : Int} {e : Expr}

theorem evaluate_ends (context : Context) (limit : Int) (hN : ∀ n ∈ e.nodes, n.Regular) :
    Eval.Ends context (Fault.Own e.nodes limit e.levels) e.askers []
      (e.evalAt context limit 0 []) :=
  (evalAt_asks hN).1 e 0 (List.Subset.refl _) (by omega) []

theorem refused_of_evaluate (hN : ∀ n ∈ e.nodes, n.Regular)
    (hreq : (e.evaluate context limit).2 = earlier ++ [r])
    (hr : context.answer earlier.reverse r = .error fault) :
    ∃ before n, before ++ [n] <+: e.askers ∧ List.Forall₂ Asks before earlier ∧ n.Asks r ∧
      (e.evaluate context limit).1 = .error (e.report (n.passOn fault)) := by
  have hends := evaluate_ends context limit hN
  rw [evaluate, conclude] at hreq ⊢
  generalize e.evalAt context limit 0 [] = result at hends hreq ⊢
  have unanswered : ∀ {before later}, context.Served before [] later →
      later.reverse ≠ earlier ++ [r] := by
    intro before later h hl
    obtain rfl : later = r :: earlier.reverse := by simpa using congrArg List.reverse hl
    obtain hl | ⟨v, hv⟩ := h.last_ok
    · cases hl
    · rw [hr] at hv
      cases hv
  cases hends with
  | value h => exact absurd hreq (unanswered h)
  | failed h => exact absurd hreq (unanswered h)
  | @refused before n r' fault' later h hn ha hr' =>
    obtain ⟨rfl, rfl⟩ : r' = r ∧ later = earlier.reverse := by
      simpa using congrArg List.reverse hreq
    rw [hr] at hr'
    cases hr'
    obtain ⟨rs, hrs, hb⟩ := h.requests
    obtain rfl : earlier = rs := by simpa using hrs
    exact ⟨before, n, hn, hb, ha, rfl⟩

/-- A fault of the context that tells no place is reported at the node that asked, which the number
of earlier requests tells; only an error of the host for a name is reported at the root. -/
theorem evaluate_refused_location (hparse : parse maxDepth tokens = .ok e)
    (hreq : (e.evaluate context limit).2 = earlier ++ [r])
    (hr : context.answer earlier.reverse r = .error fault) (hf : fault.Unlocated) :
    ∃ n d, e.askers[earlier.length]? = some n ∧
      List.Forall₂ Asks (e.askers.take (earlier.length + 1)) (earlier ++ [r]) ∧
      (∃ t ∈ tokens, n.location = t.location) ∧ (e.evaluate context limit).1 = .error d ∧
      ((∀ error, fault = .host error → ∃ name args, r = .invoke name args) →
        d.location = n.location) ∧
      (∀ error name, fault = .host error → r = .resolve name → d.location = e.location) := by
  have hread := readFrom_of_parse hparse
  obtain ⟨before, n, hn, hb, ha, hd⟩ :=
    refused_of_evaluate (fun n h => (hread n h).regular) hreq hr
  have hl : (before ++ [n]).length = earlier.length + 1 := by simp [hb.length_eq]
  have hget : e.askers[earlier.length]? = some n := by
    rw [List.prefix_iff_getElem?.1 hn earlier.length (by omega)]
    simp [← hb.length_eq]
  have htake : e.askers.take (earlier.length + 1) = before ++ [n] := by
    rw [← hl, ← List.prefix_iff_eq_take.1 hn]
  obtain ⟨t, ht, hnt⟩ := (hread n (mem_nodes_of_mem_askers e (List.mem_of_getElem? hget))).token
  refine ⟨n, _, hget, ?_, ⟨t, ht, hnt⟩, hd, fun h => ?_, ?_⟩
  · rw [htake]
    exact List.rel_append hb (.cons ha .nil)
  · cases fault with
    | diagnostic d =>
      rw [passOn_diagnostic, hnt]
      exact Diagnostic.location_locate hf t.line t.column
    | host error =>
      obtain ⟨name, args, rfl⟩ := h error rfl
      cases ha
      rfl
  · rintro error name rfl rfl
    cases ha
    rfl

/-- `1 + f()`, where the function fails. -/
theorem evaluate_refused_location_of_call :
    let f : Token := ⟨.identifier, "f", 1, 5⟩
    let tokens : List Token := [⟨.number, "1", 1, 1⟩, ⟨.plus, "+", 1, 3⟩, f,
      ⟨.leftParen, "(", 1, 6⟩, ⟨.rightParen, ")", 1, 7⟩, ⟨.endOfInput, "", 1, 8⟩]
    let e : Expr := .binary (.arithmetic .add) (.number "1" (.ofPair 1 1))
      (.call (.identifier "f" f.location) [] f.location) (.ofPair 1 3)
    let fault : Fault := .host (.value "no")
    lex "1 + f()" = .ok tokens ∧ parse 32 tokens = .ok e ∧
      (e.evaluate (.failing fault) 200).2 = [] ++ [.invoke "f" []] ∧
      (Context.failing fault).answer [] (.invoke "f" []) = .error fault ∧ fault.Unlocated ∧
      ∃ d, (e.evaluate (.failing fault) 200).1 = .error d ∧ d.location = f.location := by
  intro f tokens e fault
  have hparse : parse 32 tokens = .ok e := rfl
  have hreq : (e.evaluate (.failing fault) 200).2 = [] ++ [.invoke "f" []] := by decide +kernel
  obtain ⟨n, d, hn, -, -, hd, hl, -⟩ :=
    evaluate_refused_location hparse hreq rfl trivial
  cases hn
  exact ⟨by decide +kernel, hparse, hreq, rfl, trivial, d, hd, hl fun _ _ => ⟨"f", [], rfl⟩⟩

/-- `1 + x`, where the name cannot be looked up for an error of the host: the error is reported at
the sign and not at the name that asked. -/
theorem refused_name_at_root :
    let x : Token := ⟨.identifier, "x", 1, 5⟩
    let tokens : List Token :=
      [⟨.number, "1", 1, 1⟩, ⟨.plus, "+", 1, 3⟩, x, ⟨.endOfInput, "", 1, 6⟩]
    let e : Expr := .binary (.arithmetic .add) (.number "1" (.ofPair 1 1))
      (.identifier "x" x.location) (.ofPair 1 3)
    let fault : Fault := .host (.value "no")
    lex "1 + x" = .ok tokens ∧ parse 32 tokens = .ok e ∧
      e.askers = [.identifier "x" x.location] ∧
      (e.evaluate (.failing fault) 200).2 = [.resolve "x"] ∧
      ∃ d, (e.evaluate (.failing fault) 200).1 = .error d ∧ d.location = .ofPair 1 3 ∧
        d.location ≠ x.location := by
  intro x tokens e fault
  have hd : (e.evaluate (.failing fault) 200).1 =
    .error ((EvalError.raised (.value "no")).toDiagnostic (.ofPair 1 3)) := by decide +kernel
  exact ⟨by decide +kernel, rfl, rfl, by decide +kernel, _, hd, rfl, by decide⟩

end Expr

end Formulae
