import Formulae.Proofs.Cursor
import Formulae.Proofs.Parsing.Compositional
import Formulae.Proofs.Parsing.CorrectPrefix
import Formulae.Proofs.Parsing.Reuse

namespace Formulae

namespace Parser

structure Climbs (i : Nat) (is : List Nat) (j : Nat) : Prop where
  pairwise : is.Pairwise (· ≤ ·)
  between : ∀ k ∈ is, i ≤ k ∧ k ≤ j
  le : i ≤ j
  getLast? : (i :: is).getLast? = some j

namespace Climbs

theorem refl (i : Nat) : Climbs i [] i := ⟨.nil, nofun, Nat.le_refl i, rfl⟩

theorem step (h : i ≤ j) : Climbs i [j] j where
  pairwise := List.pairwise_singleton _ j
  between := fun k hk => by
    obtain rfl := List.mem_singleton.1 hk
    exact ⟨h, Nat.le_refl k⟩
  le := h
  getLast? := rfl

theorem trans (h : Climbs i is j) (h' : Climbs j js k) : Climbs i (is ++ js) k where
  pairwise := List.pairwise_append.2 ⟨h.pairwise, h'.pairwise, fun m hm n hn =>
    Nat.le_trans (h.between m hm).2 (h'.between n hn).1⟩
  between := List.forall_mem_append.2
    ⟨fun m hm => ⟨(h.between m hm).1, Nat.le_trans (h.between m hm).2 h'.le⟩,
      fun n hn => ⟨Nat.le_trans h.le (h'.between n hn).1, (h'.between n hn).2⟩⟩
  le := Nat.le_trans h.le h'.le
  getLast? := by
    rcases js with _ | ⟨m, js⟩
    · rw [List.append_nil, h.getLast?]
      exact h'.getLast?
    · have hl := h'.getLast?
      rw [List.getLast?_cons_cons] at hl
      rw [← List.cons_append, List.getLast?_append, hl]
      rfl

theorem pairwise_cons (h : Climbs i is j) : (i :: is).Pairwise (· ≤ ·) :=
  List.pairwise_cons.2 ⟨fun k hk => (h.between k hk).1, h.pairwise⟩

theorem le_of_mem (h : Climbs i is j) : ∀ k ∈ i :: is, k ≤ j :=
  List.forall_mem_cons.2 ⟨h.le, fun k hk => (h.between k hk).2⟩

end Climbs

/-- How a program runs if it is made of these steps: the places to which it moves the cursor, one
after the other, and how it ends. -/
inductive Moves : {α : Type} → Parse α → Parser → List Nat →
    EStateM.Result ParseError Parser α → Prop
  | pure (a : α) (p : Parser) : Moves (pure a) p [] (.ok a p)
  | throw (e : ParseError) (p : Parser) : Moves (throw e : Parse α) p [] (.error e p)
  | get (p : Parser) : Moves get p [] (.ok p p)
  | advance (p : Parser) : Moves advance p [p.next.position] (.ok () p.next)
  | opened (p : Parser) : Moves opened p [] (.ok () { p with nesting := p.nesting + 1 })
  | close (p : Parser) : Moves close p [] (.ok () { p with nesting := p.nesting - 1 })
  | bind {x : Parse α} {f : α → Parse β} (hx : Moves x p is (.ok a q))
      (hf : Moves (f a) q js r) : Moves (x >>= f) p (is ++ js) r
  | fail {x : Parse α} {f : α → Parse β} (hx : Moves x p is (.error e q)) :
      Moves (x >>= f) p is (.error e q)

theorem position_le_next (p : Parser) : p.position ≤ p.next.position := by
  rcases p with ⟨_ | ⟨t, ts⟩, i, n⟩
  · exact Nat.le_refl i
  · exact Nat.le_succ i

section

variable {x : Parse α} {r : EStateM.Result ParseError Parser α}

theorem Moves.eq (h : Moves x p is r) : x p = r := by
  induction h with
  | pure | throw | get | advance | opened | close => rfl
  | bind _ _ ihx ihf => rw [bind_ok ihx, ihf]
  | fail _ ih => exact bind_error ih

theorem Moves.climbs (h : Moves x p is r) : Climbs p.position is (ending r).position := by
  induction h with
  | pure | throw | get | opened | close => exact .refl _
  | advance p => exact .step (position_le_next p)
  | bind _ _ ihx ihf => exact ihx.trans ihf
  | fail _ ih => exact ih

end

def ofCursor (c : Cursor Token) (nesting : Nat) : Parser where
  rest := c.rest
  position := c.position
  nesting := nesting

section

variable {c : Cursor Token} {nesting : Nat}

theorem current_of_peek (h : c.peek 0 = .ok (some t)) :
    current (ofCursor c nesting) = .ok t (ofCursor c nesting) := by
  rw [ofCursor, Cursor.rest_of_peek h]
  rfl

theorem current_of_peek_none (h : c.peek 0 = .ok none) :
    current (ofCursor c nesting) = .error .endMissing (ofCursor c nesting) := by
  rw [ofCursor, Cursor.rest_of_peek_none h]
  rfl

theorem next_ofCursor (h : c.InBounds) : (ofCursor c nesting).next = ofCursor c.advance nesting := by
  by_cases he : c.position = c.elements.length
  · rw [Cursor.advance_of_end he, next, ofCursor, Cursor.rest, he, List.drop_length]
  · rw [Cursor.advance_of_ne he, next, ofCursor, Cursor.rest,
      List.drop_eq_getElem_cons (h.lt_length he)]
    rfl

theorem Moves.on_cursor {x : Parse α} {r : EStateM.Result ParseError Parser α}
    (h : Moves x (ofCursor c nesting) is r) (hc : c.InBounds) :
    is = (List.iterate Cursor.advance c.advance is.length).map Cursor.position ∧
      ∃ nesting', ending r = ofCursor (Cursor.advance^[is.length] c) nesting' := by
  generalize hp : ofCursor c nesting = p at h
  induction h generalizing c nesting with
  | pure | throw | get | opened | close =>
    subst hp
    exact ⟨rfl, _, rfl⟩
  | advance p =>
    subst hp
    rw [next_ofCursor hc]
    exact ⟨rfl, _, rfl⟩
  | @bind _ _ _ is _ _ js _ _ _ _ _ ihx ihf =>
    obtain ⟨hi, nesting', hq⟩ := ihx hc hp
    obtain ⟨hj, hr⟩ := ihf (hc.iterate_advance is.length) hq.symm
    rw [List.length_append, List.iterate_add, List.map_append, ← hi, Nat.add_comm,
      Function.iterate_add_apply, ← Function.iterate_succ_apply, Function.iterate_succ_apply', ← hj]
    exact ⟨rfl, hr⟩
  | fail _ ih => exact ih hc hp

theorem moves_on_cursor {limit : Int} {r : EStateM.Result ParseError Parser Expr}
    (h : Moves (formula limit) (ofTokens tokens) is r) :
    is = (List.iterate Cursor.advance (Cursor.ofList tokens).advance is.length).map
        Cursor.position ∧
      ∃ nesting, ending r = ofCursor (Cursor.advance^[is.length] (.ofList tokens)) nesting := by
  have ht : ofTokens tokens = ofCursor (.ofList tokens) 0 := rfl
  exact (ht ▸ h).on_cursor (Cursor.inBounds_ofList tokens)

end

def Stepwise (x : Parse α) : Prop := ∀ p, ∃ is, Moves x p is (x p)

theorem Stepwise.bind {x : Parse α} {f : α → Parse β} (hx : Stepwise x)
    (hf : ∀ a, Stepwise (f a)) : Stepwise (x >>= f) := by
  intro p
  obtain ⟨is, hp⟩ := hx p
  cases hr : x p with
  | ok a q =>
    obtain ⟨js, hq⟩ := hf a q
    rw [hr] at hp
    rw [bind_ok hr]
    exact ⟨_, hp.bind hq⟩
  | error e q =>
    rw [hr] at hp
    rw [bind_error hr]
    exact ⟨_, hp.fail⟩

theorem Stepwise.current : Stepwise Parser.current := by
  refine .bind (fun p => ⟨_, .get p⟩) fun p => ?_
  split
  · exact fun p => ⟨_, .throw .endMissing p⟩
  · exact fun p => ⟨_, .pure _ p⟩

theorem compositional_stepwise : Compositional (fun _ => True) Stepwise where
  pure a p := ⟨_, .pure a p⟩
  bind := Stepwise.bind
  get p := ⟨_, .get p⟩
  look hf := Stepwise.current.bind fun t => hf t trivial
  advance p := ⟨_, .advance p⟩
  opened p := ⟨_, .opened p⟩
  close p := ⟨_, .close p⟩
  blame _ _ p := ⟨_, .throw _ p⟩
  refuse _ _ p := ⟨_, .throw _ p⟩

def extend (more : List Token) (p : Parser) : Parser := { p with rest := p.rest ++ more }

inductive Extends (more : List Token) :
    (r r' : EStateM.Result ParseError Parser α) → Prop
  | ok (a : α) (q : Parser) : Extends more (.ok a q) (.ok a (q.extend more))
  | error (e : ParseError) (q : Parser) : Extends more (.error e q) (.error e (q.extend more))
  | ranOut (hq : q.rest = []) (h : q.position ≤ (ending r').position) :
      Extends more (.error .endMissing q) r'

/-- A token is taken only after a look at it, so a program that has not run out of tokens has not come
to those behind. -/
theorem Predictive.extends {x : Down → Parse α} (h : Predictive k b x) {down : Down}
    (hs : ∀ entry t, Advances (down entry t))
    (hd : ∀ entry t p, Extends more (down entry t p) (down entry t (p.extend more))) :
    ∀ {p}, Known k p → Extends more (x down p) (x down (p.extend more)) := by
  induction h with
  | pure a => exact fun {p} _ => .ok a p
  | @look _ _ _ f h ih =>
    rintro ⟨_ | ⟨t, ts⟩, i, n⟩ _
    · have hl := ((look (k := none) h).advances hs).position_le (extend more ⟨[], i, n⟩)
      exact .ranOut rfl hl
    · exact ih t (known_some t ts)
  | take h ih =>
    rintro ⟨_ | ⟨u, us⟩, i, n⟩ hp
    · cases hp _ rfl
    · exact ih (known_none ⟨us, i + 1, n⟩)
  | @blame _ _ _ e h => exact fun {p} _ => .error e p
  | descend entry t => exact fun {p} _ => hd entry t p
  | @bind _ _ _ _ x f hx hf ihx ihf =>
    intro p hp
    have hx := ihx hp
    simp only [Bind.bind, EStateM.bind]
    generalize x down p = r, x down (p.extend more) = r' at hx ⊢
    cases hx with
    | ok a q => exact ihf a (known_none q)
    | error e q => exact .error e q
    | ranOut hq h =>
      refine .ranOut hq (Nat.le_trans h ?_)
      cases r' with
      | ok a q' => exact ((hf a).advances hs).position_le q'
      | error e q' => exact Nat.le_refl _
  | enough xs h hx ih =>
    intro p hp
    have hl : p.rest.length ≤ (p.extend more).rest.length := by simp [extend]
    rw [hx down hs _ p hl, hx down hs _ (p.extend more) (Nat.le_refl _)]
    exact ih _ hp

theorem extends_nested (limit : Int) (left : Nat) (entry : Entry) (t : Token) (p : Parser) :
    Extends more (nested limit left entry t p) (nested limit left entry t (p.extend more)) := by
  induction left generalizing entry t p with
  | zero => exact .error (.tooDeep limit t) { p with nesting := p.nesting + 1 }
  | succ left ih =>
    have hb := (Predictive.body (k := none) (b := false) entry).extends
      (advances_nested limit left) ih (known_none { p with nesting := p.nesting + 1 })
    have hopened : { p.extend more with nesting := (p.extend more).nesting + 1 } =
      extend more { p with nesting := p.nesting + 1 } := rfl
    rw [nested_succ, nested_succ, hopened]
    generalize body (nested limit left) entry _ = r,
      body (nested limit left) entry (extend more _) = r' at hb ⊢
    cases hb with
    | ok e q => exact .ok e { q with nesting := q.nesting - 1 }
    | error e q => exact .error e q
    | ranOut hq h =>
      refine .ranOut hq (Nat.le_trans h ?_)
      cases r' <;> exact Nat.le_refl _

theorem extends_formula (limit : Int) (tokens more : List Token) :
    Extends more (formula limit (ofTokens tokens)) (formula limit (ofTokens (tokens ++ more))) := by
  rw [formula_ofTokens, formula_ofTokens]
  exact predictive_whole.extends (advances_nested limit _) (extends_nested limit _)
    (known_none (ofTokens tokens))

structure SamePlace (p p' : Parser) : Prop where
  position_eq : p.position = p'.position
  nesting_eq : p.nesting = p'.nesting

theorem Extends.alike {r r' r'' : EStateM.Result ParseError Parser α} (h : Extends more r r')
    (h' : Extends more' r r'') (hr : ∀ q, r ≠ .error .endMissing q) :
    EndAlike SamePlace Eq Eq r' r'' := by
  cases h with
  | ok a q => cases h' with | ok => exact .ok rfl ⟨rfl, rfl⟩
  | error e q =>
    cases h' with
    | error => exact .error rfl ⟨rfl, rfl⟩
    | ranOut => exact absurd rfl (hr q)
  | ranOut => exact absurd rfl (hr _)

theorem position_of_ranOut {limit : Int} (h : formula limit (ofTokens tokens) = .error e q)
    (hq : q.rest = []) : q.position = tokens.length := by
  obtain ⟨w, hw⟩ := advances_formula limit (ofTokens tokens)
  rw [h] at hw
  have hr : tokens = w ++ q.rest := hw.rest_eq
  rw [hq, List.append_nil] at hr
  rw [hr]
  exact hw.position_eq.trans (Nat.zero_add _)

theorem not_endMissing_of_take {limit : Int} {r : EStateM.Result ParseError Parser Expr}
    (h : formula limit (ofTokens tokens) = r) (hr : ∀ q, r ≠ .error .endMissing q) (q : Parser) :
    formula limit (ofTokens (tokens.take ((ending r).position + 1))) ≠ .error .endMissing q := by
  intro hq
  have he := extends_formula limit (tokens.take ((ending r).position + 1))
    (tokens.drop ((ending r).position + 1))
  rw [List.take_append_drop, hq, h] at he
  generalize hp : (ending r).position = p at hq he
  cases he with
  | error => exact hr _ rfl
  | ranOut hrest hle =>
    have hl := position_of_ranOut hq hrest
    rw [List.length_take] at hl
    rcases Nat.lt_or_ge p tokens.length with hlt | hge
    · omega
    · rw [List.take_of_length_le (by omega), h] at hq
      exact hr q hq

theorem position_le_endOfInput (limit : Int) (ht : tokens[n]? = some t)
    (hk : t.kind = .endOfInput) :
    (ending (formula limit (ofTokens tokens))).position ≤ n := by
  obtain ⟨w, hw, d, hd⟩ := begins_of_formula limit tokens
  have hr : tokens = w ++ _ := hw.rest_eq
  rw [hw.position_eq, show (ofTokens tokens).position = 0 from rfl, Nat.zero_add]
  refine Nat.le_of_not_lt fun hn => ?_
  rw [hr, List.getElem?_append_left hn] at ht
  exact Grammar.kind_ne_endOfInput d t (hd.subset (List.mem_of_getElem? ht)) hk

end Parser

open Formulae.Parser

/-- The cursor of a parser starts at the first token, never goes back, ends where the parser stops
and is at no time behind an end of the input. Unless the parser misses an end, it comes to the same
with whatever other tokens behind the one at which it stops, or with none: to the same expression or
error, at the same place and with as many levels open. -/
theorem formula_reads_no_further (limit : Int) (tokens : List Token) :
    let r := formula limit (ofTokens tokens)
    let stop := (ending r).position
    (∃ is, Moves (formula limit) (ofTokens tokens) is r) ∧
    (∀ is r', Moves (formula limit) (ofTokens tokens) is r' →
      r' = r ∧ (0 :: is).Pairwise (· ≤ ·) ∧ (0 :: is).getLast? = some stop ∧
        ∀ i ∈ 0 :: is, ∀ n t, tokens[n]? = some t → t.kind = .endOfInput → i ≤ n) ∧
    ((∀ q, r ≠ .error .endMissing q) → ∀ others,
      EndAlike SamePlace Eq Eq r (formula limit (ofTokens (tokens.take (stop + 1) ++ others)))) := by
  intro r stop
  refine ⟨compositional_stepwise.formula limit (ofTokens tokens), fun is r' hm => ?_,
    fun hr others => ?_⟩
  · obtain rfl : r = r' := hm.eq
    have hc : Climbs 0 is stop := hm.climbs
    refine ⟨rfl, hc.pairwise_cons, hc.getLast?, fun i hi n t ht hk => ?_⟩
    exact Nat.le_trans (hc.le_of_mem i hi) (position_le_endOfInput limit ht hk)
  · have hfront := not_endMissing_of_take (show formula limit (ofTokens tokens) = r from rfl) hr
    have hall := extends_formula limit (tokens.take (stop + 1)) (tokens.drop (stop + 1))
    rw [List.take_append_drop] at hall
    exact hall.alike (extends_formula limit (tokens.take (stop + 1)) others) hfront

/-- `--`, where the second sign is one level too deep: the parser stops behind it and does not look
at what follows, not even for an end. -/
theorem formula_reads_no_further_of_signs :
    let first : Token := ⟨.minus, "-", 1, 1⟩
    let second : Token := ⟨.minus, "-", 1, 2⟩
    let r := formula 2 (ofTokens [first, second])
    r = .error (.tooDeep 2 second) ⟨[], 2, 3⟩ ∧ (∀ q, r ≠ .error .endMissing q) ∧
      ∀ others, EndAlike SamePlace Eq Eq r (formula 2 (ofTokens (first :: second :: others))) := by
  intro first second r
  have he : r = .error (.tooDeep 2 second) ⟨[], 2, 3⟩ := rfl
  have hr : ∀ q, r ≠ .error .endMissing q := by
    rw [he]
    rintro q ⟨⟩
  exact ⟨he, hr, (formula_reads_no_further 2 [first, second]).2.2 hr⟩

end Formulae
