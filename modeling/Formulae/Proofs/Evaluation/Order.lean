import Formulae.Proofs.Evaluation.Threshold

namespace Formulae

namespace Expr

variable {context : Context} {e : Expr}

theorem requests_plain (context : Context) (e : Expr) :
    ∃ before, before <+: e.askers ∧
      List.Forall₂ Asks before (e.conclude (e.plain context)).2 := by
  obtain ⟨before, rs, hb, hr, h⟩ := (plain_asks context e []).requests
  rw [requests_conclude, hr, List.append_nil, List.reverse_reverse]
  exact ⟨before, hb, h⟩

theorem requests_plain_of_value (h : (e.conclude (e.plain context)).1 = .ok v) :
    List.Forall₂ Asks e.askers (e.conclude (e.plain context)).2 := by
  have hends := plain_asks context e []
  rw [conclude] at h ⊢
  generalize e.plain context [] = r at hends h ⊢
  cases hends with
  | value hs =>
    obtain ⟨rs, rfl, hrs⟩ := hs.requests
    simpa using hrs
  | refused => cases h
  | failed => cases h

/-- Whatever the context answers and whatever the limit is, an expression that has a value has asked
for each of its names and calls once, in their order; one that has none has asked for the first of
them. -/
theorem evaluate_requests (context : Context) (limit : Int) (e : Expr) :
    (∀ v, (e.evaluate context limit).1 = .ok v →
      List.Forall₂ Asks e.askers (e.evaluate context limit).2) ∧
    ∃ before, before <+: e.askers ∧
      List.Forall₂ Asks before (e.evaluate context limit).2 := by
  obtain ⟨he, -⟩ | ⟨l, hd, hr⟩ := evaluate_curbed context limit e
  · rw [he]
    exact ⟨fun v hv => requests_plain_of_value hv, requests_plain context e⟩
  · refine ⟨fun v hv => ?_, ?_⟩
    · rw [hd] at hv
      cases hv
    · obtain ⟨before, hb, h⟩ := requests_plain context e
      have ht := List.forall₂_take (e.evaluate context limit).2.length h
      rw [← List.prefix_iff_eq_take.1 hr] at ht
      exact ⟨_, (List.take_prefix _ before).trans hb, ht⟩

/-- `f(a) ? b : g(c)`, where nothing is left out. -/
theorem evaluate_requests_of_conditional :
    let name (s : String) : Expr := .identifier s Location.nowhere
    let call (f x : String) : Expr := .call (name f) [name x] Location.nowhere
    let e : Expr := .conditional (call "f" "a") (name "b") (call "g" "c") Location.nowhere
    let yes : Context := ⟨fun _ _ => .ok (.boolean true)⟩
    (e.evaluate yes 2).1 = .ok (.boolean true) ∧
      e.askers = [name "a", call "f" "a", name "b", name "c", call "g" "c"] ∧
      List.Forall₂ Asks e.askers (e.evaluate yes 2).2 := by
  intro name call e yes
  have hv : (e.evaluate yes 2).1 = .ok (.boolean true) := by decide +kernel
  exact ⟨hv, rfl, (evaluate_requests yes 2 e).1 _ hv⟩

end Expr

end Formulae
