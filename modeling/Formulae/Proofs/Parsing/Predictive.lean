import Formulae.Proofs.Parsing.Steps
import Formulae.Proofs.Parsing.Levels

/-!
Predictive parsers: programs that look at the current token, take or blame it, and go down. All
that the parser does beyond what the grammar says follows from the shape of these programs.
-/

namespace Formulae

def ParseError.found? : ParseError → Option Token
  | .endExpected t | .operandExpected t | .colonExpected t => some t
  | .parenExpected _ t | .callUnclosed _ t => some t
  | .tooDeep _ _ | .endMissing => none

namespace Parser

def ending : EStateM.Result ParseError Parser α → Parser
  | .ok _ q | .error _ q => q

def Advances (x : Parse α) : Prop := ∀ p : Parser, ∃ w, p.Passes w (ending (x p))

theorem Advances.position_le {x : Parse α} (h : Advances x) (p : Parser) :
    p.position ≤ (ending (x p)).position := by
  obtain ⟨w, hw⟩ := h p
  rw [hw.position_eq]
  exact Nat.le_add_right _ _

theorem Advances.length_le {x : Parse α} (h : Advances x) (p : Parser) :
    (ending (x p)).rest.length ≤ p.rest.length := by
  obtain ⟨w, hw⟩ := h p
  rw [hw.rest_eq, List.length_append]
  exact Nat.le_add_left _ _

theorem Advances.shrinks {x : Parse α} (h : Advances x) : Shrinks x := by
  intro p a q hq
  have := h.length_le p
  rwa [hq] at this

/-- Programs over a way to go down, by the current token, if it has been looked at, and by whether a
token has been taken. One that has taken none does not go down. -/
inductive Predictive : {α : Type} → Option Token → Bool → (Down → Parse α) → Prop
  | pure (a : α) : Predictive k b fun _ => pure a
  | look {f : Down → Token → Parse α} (h : ∀ t, Predictive (some t) b fun down => f down t) :
      Predictive k b fun down => current >>= f down
  | take {x : Down → Parse α} (h : Predictive none true x) :
      Predictive (some t) b fun down => advance >>= fun _ => x down
  | blame {e : ParseError} (h : e.found? = some t) :
      Predictive (some t) b fun _ => (throw e : Parse α)
  | descend (entry : Entry) (t : Token) : Predictive k true fun down => down entry t
  | bind {x : Down → Parse α} {f : Down → α → Parse β} (hx : Predictive k b x)
      (hf : ∀ a, Predictive none b fun down => f down a) :
      Predictive k b fun down => x down >>= f down
  | enough {x : Down → Parse α} (xs : Nat → Down → Parse α) (h : ∀ n, Predictive k b (xs n))
      (hx : ∀ down, (∀ entry t, Advances (down entry t)) → ∀ n p, p.rest.length ≤ n →
        x down p = xs n down p) : Predictive k b x

namespace Predictive

theorem advances {x : Down → Parse α} (h : Predictive k b x) {down : Down}
    (hd : ∀ entry t, Advances (down entry t)) : Advances (x down) := by
  induction h with
  | pure a => exact fun p => ⟨[], .refl p⟩
  | look h ih =>
    rintro ⟨_ | ⟨t, ts⟩, i, n⟩
    · exact ⟨[], .refl _⟩
    · exact ih t _
  | take h ih =>
    rintro ⟨_ | ⟨t, ts⟩, i, n⟩
    · exact ih _
    · obtain ⟨w, hw⟩ := ih ⟨ts, i + 1, n⟩
      exact ⟨t :: w, Passes.trans (w := [t]) ⟨rfl, rfl⟩ hw⟩
  | blame h => exact fun p => ⟨[], .refl p⟩
  | descend entry t => exact hd entry t
  | @bind _ _ _ _ x f hx hf ihx ihf =>
    intro p
    obtain ⟨w, hw⟩ := ihx p
    simp only [Bind.bind, EStateM.bind]
    split
    next a q hq =>
      rw [hq] at hw
      obtain ⟨u, hu⟩ := ihf a q
      exact ⟨w ++ u, hw.trans hu⟩
    next e q hq => exact ⟨w, by rwa [hq] at hw⟩
  | enough xs h hx ih =>
    intro p
    rw [hx down hd _ p (Nat.le_refl _)]
    exact ih _ p

end Predictive

def Known (k : Option Token) (p : Parser) : Prop := ∀ t, k = some t → p.rest.head? = some t

theorem known_none (p : Parser) : Known none p := by rintro t ⟨⟩

theorem known_some (t : Token) (ts : List Token) : Known (some t) ⟨t :: ts, i, n⟩ := by
  rintro _ ⟨⟩; rfl

def Blamed (r : EStateM.Result ParseError Parser α) : Prop :=
  ∀ e q, r = .error e q → (∃ limit t, e = .tooDeep limit t) ∨ e.found? = q.rest.head?

def Within (r : EStateM.Result ParseError Parser α) : Prop :=
  ∀ limit t q, r ≠ .error (.tooDeep limit t) q

namespace Predictive

theorem blamed {x : Down → Parse α} (h : Predictive k b x) {down : Down}
    (hs : ∀ entry t, Advances (down entry t)) (hd : ∀ entry t p, Blamed (down entry t p)) :
    ∀ {p}, Known k p → Blamed (x down p) := by
  induction h with
  | pure a => rintro p _ e q ⟨⟩
  | look h ih =>
    rintro ⟨_ | ⟨t, ts⟩, i, n⟩ _
    · rintro e q ⟨⟩; exact .inr rfl
    · exact ih t (known_some t ts)
  | take h ih => exact fun {p} _ => ih (known_none _)
  | blame h => rintro p hp e q ⟨⟩; exact .inr (h.trans (hp _ rfl).symm)
  | descend entry t => exact fun {p} _ => hd entry t p
  | bind hx hf ihx ihf =>
    intro p hp e q h
    obtain h | ⟨a, r, -, h⟩ := eq_error_of_bind h
    · exact ihx hp e q h
    · exact ihf a (known_none r) e q h
  | enough xs h hx ih =>
    intro p hp
    rw [hx down hs _ p (Nat.le_refl _)]
    exact ih _ hp

theorem within {x : Down → Parse α} (h : Predictive k b x) {down : Down}
    (hs : ∀ entry t, Advances (down entry t))
    (hd : ∀ entry t (p : Parser), p.rest.length + 1 ≤ left → Within (down entry t p)) :
    ∀ {p}, Known k p → p.rest.length + b.toNat ≤ left → Within (x down p) := by
  induction h with
  | pure a => rintro p _ _ limit t q ⟨⟩
  | look h ih =>
    rintro ⟨_ | ⟨t, ts⟩, i, n⟩ _ hl
    · rintro limit t q ⟨⟩
    · exact ih t (known_some t ts) hl
  | @take _ t b _ h ih =>
    rintro ⟨_ | ⟨u, us⟩, i, n⟩ hp hl
    · cases hp t rfl
    · exact ih (known_none _) (Nat.le_of_add_right_le hl)
  | blame h => rintro p hp _ limit t q ⟨⟩; cases h
  | descend entry t => exact fun {p} _ hl => hd entry t p hl
  | @bind _ b _ _ _ _ hx hf ihx ihf =>
    intro p hp hl limit t q h
    obtain h | ⟨a, r, hr, h⟩ := eq_error_of_bind h
    · exact ihx hp hl limit t q h
    · have hr := hr ▸ (hx.advances hs).length_le p
      exact ihf a (known_none r) (Nat.le_trans (Nat.add_le_add_right hr _) hl) limit t q h
  | enough xs h hx ih =>
    intro p hp
    rw [hx down hs _ p (Nat.le_refl _)]
    exact ih _ hp

end Predictive

structure Near (n : Nat) (p p' : Parser) : Prop where
  rest_eq : p'.rest.take (n - p.position) = p.rest.take (n - p.position)
  position_eq : p'.position = p.position
  nesting_eq : p'.nesting = p.nesting

structure Settled (n : Nat) (r : EStateM.Result ParseError Parser α) : Prop where
  position_lt : (ending r).position < n
  within : Within r

inductive Agree (n : Nat) : (r r' : EStateM.Result ParseError Parser α) → Prop
  | ok (a : α) (h : Near n q q') : Agree n (.ok a q) (.ok a q')
  | error (e : ParseError) (h : Near n q q') : Agree n (.error e q) (.error e q')

def Imitates (n : Nat) (x x' : Parse α) : Prop :=
  ∀ p p', Near n p p' → Settled n (x p) → Agree n (x p) (x' p')

theorem Near.of_lt (h : Near n ⟨ts, i, d⟩ p') (hi : i < n) :
    (ts = [] ∧ p' = ⟨[], i, d⟩) ∨
      ∃ t us us', ts = t :: us ∧ p' = ⟨t :: us', i, d⟩ ∧ Near n ⟨us, i + 1, d⟩ ⟨us', i + 1, d⟩ := by
  rcases p' with ⟨ts', j, d'⟩
  obtain ⟨hr, hj, hd⟩ := h
  cases hj
  cases hd
  obtain ⟨m, hm⟩ : ∃ m, n - i = m + 1 := ⟨n - i - 1, by omega⟩
  simp only [hm] at hr
  rcases ts with _ | ⟨t, us⟩ <;> rcases ts' with _ | ⟨t', us'⟩ <;> simp at hr
  · exact .inl ⟨rfl, rfl⟩
  · obtain ⟨rfl, hr⟩ := hr
    exact .inr ⟨t', us, us', rfl, rfl, by rwa [show n - (i + 1) = m by omega], rfl, rfl⟩

theorem Imitates.bind {x x' : Parse α} {f f' : α → Parse β} (hx : Imitates n x x')
    (hs : ∀ a, Advances (f a)) (hf : ∀ a, Imitates n (f a) (f' a)) :
    Imitates n (x >>= f) (x' >>= f') := by
  intro p p' hp hr
  have hx := hx p p' hp
  simp only [Bind.bind, EStateM.bind] at hr ⊢
  generalize x p = r, x' p' = r' at hr hx ⊢
  cases r with
  | ok a q =>
    have hq := Nat.lt_of_le_of_lt ((hs a).position_le q) hr.position_lt
    cases hx ⟨hq, by rintro _ _ _ ⟨⟩⟩ with
    | ok _ hn => exact hf a _ _ hn hr
  | error e q =>
    cases hx ⟨hr.position_lt, fun limit t r hq => hr.within limit t r (by cases hq; rfl)⟩ with
    | error _ hn => exact .error e hn

namespace Predictive

theorem lt_of_settled {x : Down → Parse α} (h : Predictive k b x) {down : Down}
    (hs : ∀ entry t, Advances (down entry t)) (hr : Settled n (x down p)) : p.position < n :=
  Nat.lt_of_le_of_lt ((h.advances hs).position_le p) hr.position_lt

theorem imitates {x : Down → Parse α} (h : Predictive k b x) {down down' : Down}
    (hs : ∀ entry t, Advances (down entry t)) (hs' : ∀ entry t, Advances (down' entry t))
    (hd : ∀ entry t, Imitates n (down entry t) (down' entry t)) :
    Imitates n (x down) (x down') := by
  induction h with
  | pure a => exact fun p p' hp _ => .ok a hp
  | look h ih =>
    rintro ⟨ts, i, d⟩ p' hp hr
    obtain ⟨rfl, rfl⟩ | ⟨t, us, us', rfl, rfl, -⟩ :=
      hp.of_lt ((look (k := none) h).lt_of_settled hs hr)
    · exact .error .endMissing hp
    · exact ih t _ _ hp hr
  | @take _ t b _ h ih =>
    rintro ⟨ts, i, d⟩ p' hp hr
    obtain ⟨rfl, rfl⟩ | ⟨u, us, us', rfl, rfl, hn⟩ :=
      hp.of_lt ((take (t := t) (b := b) h).lt_of_settled hs hr)
    · exact ih _ _ hp hr
    · exact ih _ _ hn hr
  | @blame _ _ _ e h => exact fun p p' hp _ => .error e hp
  | descend entry t => exact hd entry t
  | bind hx hf ihx ihf => exact ihx.bind (fun a => (hf a).advances hs) ihf
  | enough xs h hx ih =>
    intro p p' hp hr
    have hl := Nat.le_max_left p.rest.length p'.rest.length
    have hl' := Nat.le_max_right p.rest.length p'.rest.length
    rw [hx down hs _ p hl] at hr ⊢
    rw [hx down' hs' _ p' hl']
    exact ih _ p p' hp hr

end Predictive

end Parser

end Formulae
