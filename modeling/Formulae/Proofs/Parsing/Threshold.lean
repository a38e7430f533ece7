import Formulae.Proofs.Parsing.CorrectPrefix
import Mathlib.Data.Finset.Max

namespace Formulae

namespace Parser

structure Opening where
  level : Nat
  token : Token
  deriving DecidableEq, Repr

theorem exists_bound (os : List Opening) : ∃ n, ∀ o ∈ os, o.level ≤ n :=
  ⟨os.toFinset.sup Opening.level, fun _ ho => Finset.le_sup (List.mem_toFinset.2 ho)⟩

def closed : EStateM.Result ParseError Parser Expr → EStateM.Result ParseError Parser Expr
  | .ok e q => .ok e { q with nesting := q.nesting - 1 }
  | .error e q => .error e q

/-- How a program runs if there is no limit of nesting: the levels that it opens, one after the
other, and how it ends. -/
inductive Runs : {α : Type} → (Down → Parse α) → Parser → List Opening →
    EStateM.Result ParseError Parser α → Prop
  | still {x : Parse α} (h : (ending (x p)).nesting = p.nesting) : Runs (fun _ => x) p [] (x p)
  | bind {x : Down → Parse α} {f : Down → α → Parse β} (hx : Runs x p os (.ok a q))
      (hf : Runs (fun down => f down a) q os' r) :
      Runs (fun down => x down >>= f down) p (os ++ os') r
  | fail {x : Down → Parse α} {f : Down → α → Parse β} (hx : Runs x p os (.error e q)) :
      Runs (fun down => x down >>= f down) p os (.error e q)
  | down (h : Runs (fun down => body down entry) { p with nesting := p.nesting + 1 } os r) :
      Runs (fun down => down entry t) p (⟨p.nesting + 1, t⟩ :: os) (closed r)
  | same {x y : Down → Parse α}
      (h : ∀ down, (∀ entry t, Advances (down entry t)) → x down p = y down p)
      (hy : Runs y p os r) : Runs x p os r

inductive Limited (limit : Int) (r : EStateM.Result ParseError Parser α) :
    List Opening → EStateM.Result ParseError Parser α → Prop
  | within (h : ∀ o ∈ os, o.level ≤ limit) : Limited limit r os r
  | beyond (h : ∀ o ∈ before, o.level ≤ limit) (ho : limit < o.level) :
      Limited limit r (before ++ o :: after) (.error (.tooDeep limit o.token) q)

namespace Limited

variable {limit : Int} {p q : Parser} {os os' : List Opening} {x : Parse α} {f : α → Parse β}

theorem bind {r : EStateM.Result ParseError Parser β} (hx : Limited limit (.ok a q) os (x p))
    (hf : Limited limit r os' (f a q)) : Limited limit r (os ++ os') ((x >>= f) p) := by
  simp only [Bind.bind, EStateM.bind]
  generalize x p = rx at hx ⊢
  cases hx with
  | within h =>
    change Limited limit r (os ++ os') (f a q)
    generalize f a q = rf at hf ⊢
    cases hf with
    | within h' => exact .within (List.forall_mem_append.2 ⟨h, h'⟩)
    | beyond h' ho =>
      rw [← List.append_assoc]
      exact .beyond (List.forall_mem_append.2 ⟨h, h'⟩) ho
  | beyond h ho =>
    rw [List.append_assoc]
    exact .beyond h ho

theorem fail (hx : Limited limit (.error e q) os (x p)) :
    Limited limit (.error e q) os ((x >>= f) p) := by
  simp only [Bind.bind, EStateM.bind]
  generalize x p = rx at hx ⊢
  cases hx with
  | within h => exact .within h
  | beyond h ho => exact .beyond h ho

theorem deeper {r r' : EStateM.Result ParseError Parser Expr} (h : Limited limit r os r')
    {o : Opening} (ho : o.level ≤ limit) : Limited limit (closed r) (o :: os) (closed r') := by
  cases h with
  | within h => exact .within (List.forall_mem_cons.2 ⟨ho, h⟩)
  | beyond h ho' =>
    rw [← List.cons_append]
    exact .beyond (List.forall_mem_cons.2 ⟨ho, h⟩) ho'

end Limited

theorem nested_eq_closed (limit : Int) (left : Nat) (entry : Entry) (t : Token) (p : Parser) :
    nested limit (left + 1) entry t p =
      closed (body (nested limit left) entry { p with nesting := p.nesting + 1 }) :=
  nested_succ limit left entry t p

namespace Runs

variable {x : Down → Parse α} {p q : Parser} {os : List Opening}
  {r : EStateM.Result ParseError Parser α}

theorem nesting_eq (h : Runs x p os r) : ∀ {a q}, r = .ok a q → q.nesting = p.nesting := by
  induction h with
  | still h => intro a q hr; rwa [hr] at h
  | bind _ _ ihx ihf => exact fun hr => (ihf hr).trans (ihx rfl)
  | fail => intro a q hr; cases hr
  | @down _ _ _ r _ _ ih =>
    intro e q hr
    cases r with
    | ok e' q' => cases hr; exact congrArg (· - 1) (ih rfl)
    | error => cases hr
  | same _ _ ih => exact ih

theorem limited (h : Runs x p os r) {limit : Int} {levels : Nat}
    (hl : p.nesting + levels = limit.toNat) : Limited limit r os (x (nested limit levels) p) := by
  induction h generalizing levels with
  | still h => exact .within (List.forall_mem_nil _)
  | bind hx _ ihx ihf => exact (ihx hl).bind (ihf (hx.nesting_eq rfl ▸ hl))
  | fail _ ih => exact (ih hl).fail
  | @down entry p os r t _ ih =>
    cases levels with
    | zero =>
      rw [← List.nil_append (_ :: os)]
      exact .beyond (List.forall_mem_nil _) (by simp only; omega)
    | succ levels =>
      have hb := ih (show p.nesting + 1 + levels = limit.toNat by omega)
      have ho : ((⟨p.nesting + 1, t⟩ : Opening).level : Int) ≤ limit := by simp only; omega
      rw [show (fun down : Down => down entry t) (nested limit (levels + 1)) p = _ from
        nested_eq_closed limit levels entry t p]
      exact hb.deeper ho
  | same h _ ih => rw [h _ (advances_nested limit levels)]; exact ih hl

theorem exists_eq_nested (h : Runs x p os r) : ∃ limit levels, x (nested limit levels) p = r := by
  obtain ⟨n, hn⟩ := exists_bound os
  have hr : Limited (p.nesting + n) r os (x (nested (p.nesting + n) n) p) := h.limited (by omega)
  refine ⟨p.nesting + n, n, ?_⟩
  generalize x _ p = r' at hr
  cases hr with
  | within => rfl
  | @beyond _ o after _ _ ho =>
    have := hn o (by simp)
    omega

end Runs

theorem Predictive.runs {x : Down → Parse α} (h : Predictive k b x)
    (hd : ∀ entry t (q : Parser), q.rest.length + 1 ≤ left →
      ∃ os r, Runs (fun down => down entry t) q os r) :
    ∀ {p}, Known k p → p.rest.length + b.toNat ≤ left → ∃ os r, Runs x p os r := by
  induction h with
  | pure a => exact fun _ _ => ⟨[], _, .still rfl⟩
  | look h ih =>
    rintro ⟨_ | ⟨t, ts⟩, i, n⟩ _ hl
    · exact ⟨_, _, .fail (x := fun _ => current) (.still rfl)⟩
    · obtain ⟨os, r, hr⟩ := ih t (known_some t ts) hl
      exact ⟨_, _, .bind (x := fun _ => current) (.still rfl) hr⟩
  | @take _ t b _ h ih =>
    rintro ⟨_ | ⟨u, us⟩, i, n⟩ hp hl
    · cases hp t rfl
    · obtain ⟨os, r, hr⟩ := ih (known_none ⟨us, i + 1, n⟩) (Nat.le_of_add_right_le hl)
      exact ⟨_, _, .bind (x := fun _ => advance) (.still rfl) hr⟩
  | blame h => exact fun _ _ => ⟨[], _, .still rfl⟩
  | descend entry t => exact fun {p} _ hl => hd entry t p hl
  | @bind _ b _ _ x f hx hf ihx ihf =>
    intro p hp hl
    obtain ⟨os, r, hr⟩ := ihx hp hl
    cases r with
    | ok a q =>
      -- That no tokens are added is known of runs under a limit only.
      obtain ⟨limit, levels, he⟩ := hr.exists_eq_nested
      have hq := (hx.advances (advances_nested limit levels)).shrinks p a q he
      obtain ⟨os', r', hr'⟩ := ihf a (known_none q) (Nat.le_trans (Nat.add_le_add_right hq _) hl)
      exact ⟨_, _, .bind hr hr'⟩
    | error e q => exact ⟨_, _, .fail hr⟩
  | enough xs h hx ih =>
    intro p hp hl
    obtain ⟨os, r, hr⟩ := ih p.rest.length hp hl
    exact ⟨os, r, .same (fun down hs => hx down hs _ p (Nat.le_refl _)) hr⟩

theorem exists_runs_down (left : Nat) : ∀ entry t (p : Parser), p.rest.length + 1 ≤ left →
    ∃ os r, Runs (fun down => down entry t) p os r := by
  induction left with
  | zero => intro entry t p h; cases h
  | succ left ih =>
    intro entry t p h
    obtain ⟨os, r, hr⟩ := (Predictive.body (k := none) (b := false) entry).runs ih
      (known_none { p with nesting := p.nesting + 1 }) (Nat.le_of_succ_le_succ h)
    exact ⟨_, _, .down hr⟩

def result : EStateM.Result ParseError Parser α → Except ParseError α
  | .ok a _ => .ok a
  | .error e _ => .error e

/-- What a list of tokens stands for if there is no limit of nesting, and the levels that are opened
to find that out. -/
def Unlimited (tokens : List Token) (os : List Opening) (outcome : Except ParseError Expr) : Prop :=
  ∃ r, Runs whole (ofTokens tokens) os r ∧ result r = outcome

theorem exists_unlimited (tokens : List Token) : ∃ os outcome, Unlimited tokens os outcome := by
  obtain ⟨os, r, hr⟩ := predictive_whole.runs (exists_runs_down (tokens.length + 1))
    (known_none (ofTokens tokens)) (Nat.le_refl _)
  exact ⟨os, _, r, hr, rfl⟩

section

variable {tokens : List Token} {os : List Opening} {outcome : Except ParseError Expr}

theorem Unlimited.parse (h : Unlimited tokens os outcome) (limit : Int) :
    ((∀ o ∈ os, o.level ≤ limit) ∧ Formulae.parse limit tokens = outcome) ∨
      ∃ before o after, os = before ++ o :: after ∧ (∀ o' ∈ before, (o'.level : Int) ≤ limit) ∧
        limit < o.level ∧ Formulae.parse limit tokens = .error (.tooDeep limit o.token) := by
  obtain ⟨r, hr, rfl⟩ := h
  have hr : Limited limit r os (whole (nested limit limit.toNat) (ofTokens tokens)) :=
    hr.limited (Nat.zero_add _)
  rw [← formula_ofTokens] at hr
  rw [Formulae.parse]
  generalize formula limit (ofTokens tokens) = r' at hr
  cases hr with
  | within h => cases r <;> exact .inl ⟨h, rfl⟩
  | @beyond before o after q h ho => exact .inr ⟨before, o, after, rfl, h, ho, rfl⟩

theorem Unlimited.ne_tooDeep (h : Unlimited tokens os outcome) (limit : Int) (t : Token) :
    outcome ≠ .error (.tooDeep limit t) := by
  obtain ⟨n, hn⟩ := exists_bound os
  rintro rfl
  rcases h.parse (max n (tokens.length + 1) : Nat) with ⟨-, hp⟩ | ⟨before, o, after, rfl, -, ho, -⟩
  · rw [Formulae.parse] at hp
    have hw : Within (formula (max n (tokens.length + 1) : Nat) (ofTokens tokens)) :=
      within_formula (by omega)
    split at hp
    next => cases hp
    next e q he => exact hw limit t q (by rw [he, Except.error.inj hp])
  · have := hn o (by simp)
    omega

theorem Unlimited.exists_highest (h : Unlimited tokens os outcome) (ht : tokens ≠ []) :
    ∃ o ∈ os, 1 ≤ o.level ∧ ∀ o' ∈ os, o'.level ≤ o.level := by
  obtain ⟨first, rest, rfl⟩ := List.exists_cons_of_ne_nil ht
  have hrefused : Formulae.parse 0 (first :: rest) = .error (.tooDeep 0 first) := rfl
  rcases h.parse 0 with ⟨-, hp⟩ | ⟨before, o, after, hos, -, ho, -⟩
  · exact absurd (hp.symm.trans hrefused) (h.ne_tooDeep 0 first)
  · have hm : o ∈ os.toFinset := by simp [hos]
    obtain ⟨top, htop, hle⟩ := os.toFinset.exists_max_image Opening.level ⟨o, hm⟩
    have hl : o.level ≤ top.level := hle o hm
    exact ⟨top, List.mem_toFinset.1 htop, by omega, fun o' ho' => hle o' (List.mem_toFinset.2 ho')⟩

end

end Parser

open Formulae.Parser

/-- The limit of nesting is a threshold: whatever it is, tokens are parsed as without one if none of
the levels that are opened for that exceeds it, and else the first level that does is refused. So a
higher limit changes nothing but a refusal. -/
theorem parse_threshold {tokens : List Token} (ht : tokens ≠ []) :
    (∃ os outcome, Unlimited tokens os outcome) ∧
    ∀ os outcome, Unlimited tokens os outcome →
      (∀ limit t, outcome ≠ .error (.tooDeep limit t)) ∧
      ∃ n : Nat, 1 ≤ n ∧ (∃ o ∈ os, o.level = n) ∧ (∀ o ∈ os, o.level ≤ n) ∧
        (∀ limit : Int, n ≤ limit → parse limit tokens = outcome) ∧
        (∀ limit : Int, limit < n → ∃ before o after, os = before ++ o :: after ∧
          (∀ o' ∈ before, (o'.level : Int) ≤ limit) ∧ limit < o.level ∧
          parse limit tokens = .error (.tooDeep limit o.token) ∧
          (ParseError.tooDeep limit o.token).toDiagnostic.location = o.token.location) ∧
        ∀ limit limit' : Int, limit ≤ limit' →
          (∀ t, parse limit tokens ≠ .error (.tooDeep limit t)) →
            parse limit' tokens = parse limit tokens := by
  refine ⟨exists_unlimited tokens, fun os outcome h => ⟨h.ne_tooDeep, ?_⟩⟩
  obtain ⟨top, hmem, hpos, hle⟩ := h.exists_highest ht
  have enough (limit : Int) (hl : top.level ≤ limit) : parse limit tokens = outcome := by
    rcases h.parse limit with ⟨-, hp⟩ | ⟨before, o, after, hos, -, ho, -⟩
    · exact hp
    · have := hle o (by simp [hos])
      omega
  have refused (limit : Int) (hl : limit < top.level) : ∃ before o after,
      os = before ++ o :: after ∧ (∀ o' ∈ before, (o'.level : Int) ≤ limit) ∧ limit < o.level ∧
        parse limit tokens = .error (.tooDeep limit o.token) := by
    refine (h.parse limit).resolve_left fun ⟨hall, _⟩ => ?_
    exact absurd (hall top hmem) (Int.not_le.2 hl)
  refine ⟨top.level, hpos, ⟨top, hmem, rfl⟩, hle, enough, fun limit hl => ?_,
    fun limit limit' hl hp => ?_⟩
  · obtain ⟨before, o, after, hos, hb, ho, hp⟩ := refused limit hl
    exact ⟨before, o, after, hos, hb, ho, hp, rfl⟩
  · rcases Int.lt_or_le limit top.level with hlt | hge
    · obtain ⟨-, o, -, -, -, -, he⟩ := refused limit hlt
      exact absurd he (hp o.token)
    · rw [enough limit hge, enough limit' (Int.le_trans hge hl)]

/-- `-(x`, which ends too early, on three levels. -/
theorem parse_threshold_of_unclosed :
    let minus : Token := ⟨.minus, "-", 1, 1⟩
    let opening : Token := ⟨.leftParen, "(", 1, 2⟩
    let x : Token := ⟨.identifier, "x", 1, 3⟩
    let last : Token := ⟨.endOfInput, "", 1, 4⟩
    let tokens : List Token := [minus, opening, x, last]
    tokens ≠ [] ∧ ∃ os, Unlimited tokens os (.error (.parenExpected opening last)) ∧
      (∃ o ∈ os, o.level = 3) ∧ (∀ o ∈ os, o.level ≤ 3) ∧
      (∀ limit : Int, 3 ≤ limit → parse limit tokens = .error (.parenExpected opening last)) ∧
      parse 2 tokens = .error (.tooDeep 2 x) := by
  intro minus opening x last tokens
  have ht : tokens ≠ [] := by decide
  have h2 : parse 2 tokens = .error (.tooDeep 2 x) := rfl
  have h3 : parse 3 tokens = .error (.parenExpected opening last) := rfl
  obtain ⟨⟨os, outcome, h⟩, hall⟩ := parse_threshold ht
  obtain ⟨hne, n, -, hex, hle, henough, hrefused, -⟩ := hall os outcome h
  obtain rfl : n = 3 := by
    refine Nat.le_antisymm (Nat.le_of_not_lt fun hlt => ?_) (Nat.lt_of_not_le fun hle => ?_)
    · obtain ⟨-, o, -, -, -, -, hp, -⟩ := hrefused 3 (by omega)
      rw [h3] at hp
      cases hp
    · exact hne 2 x (henough 2 (by omega) ▸ h2)
  have ho := henough 3 (Int.le_refl 3)
  rw [h3] at ho
  subst ho
  exact ⟨ht, os, h, hex, hle, henough, h2⟩

end Formulae
