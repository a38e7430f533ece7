import Formulae.Proofs.Parsing.Lookahead
import Formulae.Proofs.Simulation

namespace Formulae

structure ParseError.ReportedAlike (e e' : ParseError) : Prop where
  kind_eq : e.toDiagnostic.kind = e'.toDiagnostic.kind
  location_eq : e.toDiagnostic.location = e'.toDiagnostic.location

theorem ParseError.ReportedAlike.refl (e : ParseError) : e.ReportedAlike e := ⟨rfl, rfl⟩

namespace Parser

/-- Parsers with the same tokens left; the first has taken `i` tokens more than the second, and `c`
levels more are open. -/
structure Ahead (i c : Nat) (p p' : Parser) : Prop where
  rest_eq : p.rest = p'.rest
  position_eq : p.position = i + p'.position
  nesting_eq : p.nesting = c + p'.nesting

theorem ahead_ofTokens (p : Parser) : Ahead p.position p.nesting p (ofTokens p.rest) :=
  ⟨rfl, rfl, rfl⟩

theorem Ahead.next {p p' : Parser} (h : Ahead i c p p') : Ahead i c p.next p'.next := by
  obtain ⟨ts, j, d⟩ := p
  obtain ⟨ts', j', d'⟩ := p'
  obtain rfl : ts = ts' := h.rest_eq
  rcases ts with _ | ⟨t, ts⟩
  · exact h
  · exact ⟨rfl, congrArg (· + 1) h.position_eq, h.nesting_eq⟩

theorem Ahead.opened {p p' : Parser} (h : Ahead i c p p') :
    Ahead i c { p with nesting := p.nesting + 1 } { p' with nesting := p'.nesting + 1 } :=
  ⟨h.rest_eq, h.position_eq, by rw [h.nesting_eq, Nat.add_assoc]⟩

theorem Ahead.closed {p p' : Parser} (h : Ahead i c p p') (hp : 0 < p'.nesting) :
    Ahead i c { p with nesting := p.nesting - 1 } { p' with nesting := p'.nesting - 1 } :=
  ⟨h.rest_eq, h.position_eq, by rw [h.nesting_eq, Nat.add_sub_assoc hp]⟩

abbrev InStep (i c : Nat) (x x' : Parse α) : Prop :=
  Simulates (Ahead i c) ParseError.ReportedAlike Eq x x'

theorem inStep_current : InStep i c current current := by
  rintro ⟨ts, j, d⟩ ⟨ts', j', d'⟩ h
  obtain rfl : ts = ts' := h.rest_eq
  rcases ts with _ | ⟨t, ts⟩
  · exact .error (.refl _) h
  · exact .ok rfl h

namespace Predictive

theorem inStep {x : Down → Parse α} (h : Predictive k b x) {down down' : Down}
    (hs : ∀ entry t, Advances (down entry t)) (hs' : ∀ entry t, Advances (down' entry t))
    (hd : ∀ entry t, InStep i c (down entry t) (down' entry t)) :
    InStep i c (x down) (x down') := by
  induction h with
  | pure a => exact .pure rfl
  | look h ih => exact inStep_current.bind fun t _ ht => ht ▸ ih t
  | take h ih => exact (Simulates.modify fun _ _ => Ahead.next).bind fun _ _ _ => ih
  | blame h => exact .throw (.refl _)
  | descend entry t => exact hd entry t
  | bind hx hf ihx ihf => exact ihx.bind fun a _ ha => ha ▸ ihf a
  | enough xs h hx ih =>
    intro p p' hp
    have hl := Nat.le_of_eq (congrArg List.length hp.rest_eq.symm)
    rw [hx down hs _ p (Nat.le_refl _), hx down' hs' _ p' hl]
    exact ih _ p p' hp

end Predictive

structure Balanced (x : Parse α) : Prop where
  nesting_eq : ∀ {p a q}, x p = .ok a q → q.nesting = p.nesting
  nesting_le : ∀ p, p.nesting ≤ (ending (x p)).nesting

theorem Balanced.of_eq {x : Parse α} (h : ∀ p, (ending (x p)).nesting = p.nesting) :
    Balanced x where
  nesting_eq := fun {p _ _} hq => by have := h p; rwa [hq] at this
  nesting_le := fun p => Nat.le_of_eq (h p).symm

theorem Balanced.bind {x : Parse α} {f : α → Parse β} (hx : Balanced x)
    (hf : ∀ a, Balanced (f a)) : Balanced (x >>= f) where
  nesting_eq := fun h => by
    obtain ⟨a, q, ha, h⟩ := eq_ok_of_bind h
    exact ((hf a).nesting_eq h).trans (hx.nesting_eq ha)
  nesting_le := fun p => by
    have hp := hx.nesting_le p
    simp only [Bind.bind, EStateM.bind]
    generalize x p = r at hp ⊢
    cases r with
    | ok a q => exact Nat.le_trans hp ((hf a).nesting_le q)
    | error e q => exact hp

theorem nesting_next (p : Parser) : p.next.nesting = p.nesting := by
  rcases p with ⟨_ | ⟨t, ts⟩, i, n⟩ <;> rfl

theorem Predictive.balanced {x : Down → Parse α} (h : Predictive k b x) {down : Down}
    (hs : ∀ entry t, Advances (down entry t)) (hd : ∀ entry t, Balanced (down entry t)) :
    Balanced (x down) := by
  induction h with
  | pure a => exact .of_eq fun _ => rfl
  | look h ih =>
    refine .bind (.of_eq ?_) ih
    rintro ⟨_ | ⟨t, ts⟩, i, n⟩ <;> rfl
  | take h ih => exact .bind (.of_eq nesting_next) fun _ => ih
  | blame h => exact .of_eq fun _ => rfl
  | descend entry t => exact hd entry t
  | bind hx hf ihx ihf => exact ihx.bind ihf
  | enough xs h hx ih =>
    refine ⟨fun {p a q} hq => ?_, fun p => ?_⟩
    · rw [hx down hs _ p (Nat.le_refl _)] at hq
      exact (ih _).nesting_eq hq
    · rw [hx down hs _ p (Nat.le_refl _)]
      exact (ih _).nesting_le p

section

variable (limit : Int) (left : Nat) (entry : Entry) (t : Token)

theorem balanced_nested : Balanced (nested limit left entry t) := by
  induction left generalizing entry t with
  | zero => exact ⟨(by cases ·), fun p => Nat.le_succ p.nesting⟩
  | succ left ih =>
    have hb := (Predictive.body (k := none) (b := false) entry).balanced
      (advances_nested limit left) ih
    refine ⟨fun {p a q} h => ?_, fun p => ?_⟩
    · rw [nested_succ] at h
      split at h
      next e r hr => cases h; exact congrArg (· - 1) (hb.nesting_eq hr)
      next => cases h
    · rw [nested_succ]
      have hp := hb.nesting_le { p with nesting := p.nesting + 1 }
      split
      all_goals
        next h => rw [h] at hp; simp only [ending] at hp ⊢; omega

theorem inStep_nested (limit' : Int) :
    InStep i c (nested limit left entry t) (nested limit' left entry t) := by
  induction left generalizing entry t with
  | zero => exact fun p p' hp => .error ⟨rfl, rfl⟩ hp.opened
  | succ left ih =>
    intro p p' hp
    have body := Predictive.body (k := none) (b := false) entry
    have h := body.inStep (advances_nested limit left) (advances_nested limit' left) ih _ _
      hp.opened
    have hb := body.balanced (advances_nested limit' left) (balanced_nested limit' left)
    simp only [nested_succ]
    generalize hr : Parser.body (nested limit left) entry _ = r at h ⊢
    generalize hr' : Parser.body (nested limit' left) entry _ = r' at h ⊢
    cases h with
    | ok he hq =>
      have hn := hb.nesting_eq hr'
      exact .ok he (hq.closed (by rw [hn]; exact Nat.succ_pos _))
    | error he hq => exact .error he hq

end

theorem formula_eq_whole (limit : Int) (p : Parser) :
    formula limit p = whole (nested limit (levels limit p)) p := rfl

theorem levels_ofTokens (limit : Int) (p : Parser) :
    levels (limit - p.nesting) (ofTokens tokens) = levels limit p := by
  simp [levels, ofTokens]

theorem endAlike_formula (limit : Int) (p : Parser) :
    EndAlike (Ahead p.position p.nesting) ParseError.ReportedAlike Eq (formula limit p)
      (formula (limit - p.nesting) (ofTokens p.rest)) := by
  rw [formula_eq_whole, formula_eq_whole, levels_ofTokens]
  exact predictive_whole.inStep (advances_nested _ _) (advances_nested _ _)
    (fun entry t => inStep_nested _ _ entry t _) _ _ (ahead_ofTokens p)

theorem balanced_whole (limit : Int) (left : Nat) : Balanced (whole (nested limit left)) :=
  predictive_whole.balanced (advances_nested limit left) (balanced_nested limit left)

theorem rest_of_formula {p q : Parser} (h : formula limit p = .ok e q) :
    ∃ t ts, q.rest = t :: ts ∧ t.kind = .endOfInput := by
  rw [formula_eq_whole] at h
  obtain ⟨e', r, -, h⟩ := eq_ok_of_bind h
  obtain ⟨t, r', hr, hq⟩ := eq_ok_of_bind h
  obtain ⟨-, ts, hts⟩ := current_eq_ok hr
  rw [← (current_eq_ok hr).1] at hts
  by_cases ht : t.kind = .endOfInput
  · rw [if_pos ht] at hq
    cases hq
    exact ⟨t, ts, hts, ht⟩
  · rw [if_neg ht] at hq
    cases hq

def nestedBy (leave : Parse Unit) (limit : Int) : Nat → Down
  | 0, _, token => do
    opened
    throw (.tooDeep limit token)
  | left + 1, entry, _ => do
    opened
    let e ← body (nestedBy leave limit left) entry
    leave
    pure e

def formulaBy (leave : Parse Unit) (limit : Int) : Parse Expr := do
  whole (nestedBy leave limit (levels limit (← get)))

def closeOr (stray : Parse Unit) : Parse Unit := fun p =>
  if p.nesting = 0 then stray p else close p

/-- A level is closed only while one is open, so the count of levels cannot fall below zero. -/
theorem nestedBy_closeOr (stray : Parse Unit) (limit : Int) (left : Nat) :
    nestedBy (closeOr stray) limit left = nested limit left := by
  induction left with
  | zero => rfl
  | succ left ih =>
    funext entry t p
    have hb := (Predictive.body (k := none) (b := false) entry).balanced
      (advances_nested limit left) (balanced_nested limit left)
    rw [nested_succ]
    change (body (nestedBy (closeOr stray) limit left) entry >>= fun e => do
      closeOr stray; pure e) { p with nesting := p.nesting + 1 } = _
    rw [ih]
    simp only [bind, EStateM.bind]
    generalize hr : body (nested limit left) entry _ = r
    cases r with
    | ok e q =>
      have hn : q.nesting ≠ 0 := by rw [hb.nesting_eq hr]; exact Nat.succ_ne_zero _
      simp only [closeOr, if_neg hn]
      rfl
    | error e q => rfl

theorem formulaBy_closeOr (stray : Parse Unit) (limit : Int) (p : Parser) :
    formulaBy (closeOr stray) limit p = formula limit p := by
  rw [formula_eq_whole, ← nestedBy_closeOr stray]
  rfl

inductive Call
  | parse | advance
  deriving DecidableEq, Repr

def afterCall (limit : Int) (p : Parser) : Call → Parser
  | .parse => ending (formula limit p)
  | .advance => p.next

def reached (limit : Int) (tokens : List Token) (calls : List Call) : Parser :=
  calls.foldl (afterCall limit) (ofTokens tokens)

theorem advances_formula (limit : Int) : Advances (formula limit) := fun p =>
  predictive_whole.advances (advances_nested limit (levels limit p)) p

def In (tokens : List Token) (p : Parser) : Prop := p.rest = tokens.drop p.position

theorem Passes.inTokens {p q : Parser} (h : p.Passes w q) (hp : p.In tokens) : q.In tokens := by
  rw [In] at hp ⊢
  rw [h.position_eq, ← List.drop_drop, ← hp, h.rest_eq, List.drop_left]

theorem passes_afterCall (limit : Int) (p : Parser) (call : Call) :
    ∃ w, p.Passes w (afterCall limit p call) := by
  cases call with
  | parse => exact advances_formula limit p
  | advance =>
    rcases p with ⟨_ | ⟨t, ts⟩, i, n⟩
    · exact ⟨[], .refl _⟩
    · exact ⟨[t], rfl, rfl⟩

theorem nesting_le_afterCall (limit : Int) (p : Parser) (call : Call) :
    p.nesting ≤ (afterCall limit p call).nesting := by
  cases call with
  | parse => exact (balanced_whole limit (levels limit p)).nesting_le p
  | advance => exact Nat.le_of_eq (nesting_next p).symm

theorem nesting_le_foldl (limit : Int) (p : Parser) (calls : List Call) :
    p.nesting ≤ (calls.foldl (afterCall limit) p).nesting := by
  induction calls generalizing p with
  | nil => exact Nat.le_refl _
  | cons call calls ih => exact Nat.le_trans (nesting_le_afterCall limit p call) (ih _)

theorem in_reached (limit : Int) (tokens : List Token) (calls : List Call) :
    (reached limit tokens calls).In tokens := by
  have run : ∀ (calls : List Call) (p : Parser), p.In tokens →
      (calls.foldl (afterCall limit) p).In tokens := by
    intro calls
    induction calls with
    | nil => exact fun _ hp => hp
    | cons call calls ih =>
      intro p hp
      obtain ⟨w, hw⟩ := passes_afterCall limit p call
      exact ih _ (hw.inTokens hp)
  exact run calls _ rfl

end Parser

open Formulae.Parser

/-- A parser that is used again does what a new parser does with the tokens and the levels that are
left, and its counters go on from where they were. Once it finds a formula it is at the token for
the end of the input, and all levels that it opened for that are closed; others stay open, and none
is closed that is not open. -/
theorem parser_reused (limit : Int) (tokens : List Token) (calls : List Call) :
    let p := reached limit tokens calls
    let fresh := formula (limit - p.nesting) (ofTokens (tokens.drop p.position))
    EndAlike (Ahead p.position p.nesting) ParseError.ReportedAlike Eq (formula limit p) fresh ∧
    (∀ e q, formula limit p = .ok e q →
      q.nesting = p.nesting ∧ ∃ t, tokens[q.position]? = some t ∧ t.kind = .endOfInput) ∧
    (∀ stray, formulaBy (closeOr stray) limit p = formula limit p) ∧
    ∀ earlier later, calls = earlier ++ later →
      (reached limit tokens earlier).nesting ≤ p.nesting := by
  intro p fresh
  have hp : p.rest = tokens.drop p.position := in_reached limit tokens calls
  have alike := endAlike_formula limit p
  rw [hp] at alike
  refine ⟨alike, fun e q hq => ?_, fun stray => formulaBy_closeOr stray _ _,
    fun earlier later h => ?_⟩
  · obtain ⟨t, ts, hts, ht⟩ := rest_of_formula hq
    obtain ⟨w, hw⟩ := advances_formula limit p
    rw [hq] at hw
    have hq' : q.rest = tokens.drop q.position := hw.inTokens hp
    refine ⟨(balanced_whole limit (levels limit p)).nesting_eq hq, t, ?_, ht⟩
    rw [← List.head?_drop, ← hq', hts]
    rfl
  · subst h
    change _ ≤ (reached limit tokens (earlier ++ later)).nesting
    rw [reached, reached, List.foldl_append]
    exact nesting_le_foldl limit _ later

/-- `(x y`: the first call fails at `y` and leaves a level open, and the second one finds `y` below
it. -/
theorem parser_reused_of_unclosed :
    let y : Token := ⟨.identifier, "y", 1, 4⟩
    let last : Token := ⟨.endOfInput, "", 1, 5⟩
    let tokens : List Token := [⟨.leftParen, "(", 1, 1⟩, ⟨.identifier, "x", 1, 2⟩, y, last]
    let p := reached 2 tokens [.parse]
    let q : Parser := ⟨[last], 3, 1⟩
    p = ⟨[y, last], 2, 1⟩ ∧ formula 2 p = .ok (.identifier "y" y.location) q ∧
      formula 1 (ofTokens [y, last]) = .ok (.identifier "y" y.location) ⟨[last], 1, 0⟩ ∧
      q.nesting = p.nesting ∧ ∃ t, tokens[q.position]? = some t ∧ t.kind = .endOfInput := by
  intro y last tokens p q
  have hp : p = ⟨[y, last], 2, 1⟩ := rfl
  have hq : formula 2 p = .ok (.identifier "y" y.location) q := rfl
  obtain ⟨-, hend, -⟩ := parser_reused 2 tokens [.parse]
  exact ⟨hp, hq, rfl, hend _ _ hq⟩

end Formulae
