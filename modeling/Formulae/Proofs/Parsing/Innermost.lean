import Formulae.Proofs.Parsing.Constructs
import Formulae.Proofs.Parsing.CorrectPrefix

namespace Formulae

open Token (Kind)
open Formulae.Grammar (Level)

namespace Parser

open Scan (Rests Joins)

/-- How a run may end that starts behind tokens with this scan: with a result, and then this holds
of the scan of the tokens that it took, or with the refusal that the scan tells. -/
def Explained (s : Scan) (P : Scan → Prop) (p : Parser) :
    EStateM.Result ParseError Parser α → Prop
  | .ok _ q => ∃ w, p.Passes w q ∧ P (s.along w)
  | .error e q => ∃ w, p.Passes w q ∧
    ((∃ limit t, e = .tooDeep limit t) ∨ ∀ t, q.rest.head? = some t → e = (s.along w).refusal t)

def Explains (k : Option Token) (s : Scan) (x : Parse α) (P : Scan → Prop) : Prop :=
  ∀ p, Known k p → Explained s P p (x p)

variable {s : Scan} {P Q : Scan → Prop}

theorem Explained.behind {r : EStateM.Result ParseError Parser α} (hw : p.Passes w q)
    (h : Explained (s.along w) P q r) : Explained s P p r := by
  cases r with
  | ok =>
    obtain ⟨u, hu, h⟩ := h
    exact ⟨w ++ u, hw.trans hu, by rwa [Scan.along_append]⟩
  | error =>
    obtain ⟨u, hu, h⟩ := h
    exact ⟨w ++ u, hw.trans hu, by rwa [Scan.along_append]⟩

namespace Explains

theorem pure {a : α} (h : P s) : Explains k s (Pure.pure a : Parse α) P :=
  fun p _ => ⟨[], .refl p, h⟩

theorem bind {x : Parse α} {f : α → Parse β} (hx : Explains k s x P)
    (hf : ∀ a s', P s' → Explains none s' (f a) Q) : Explains k s (x >>= f) Q := by
  intro p hp
  have hx := hx p hp
  simp only [Bind.bind, EStateM.bind]
  generalize x p = r at hx ⊢
  cases r with
  | ok a q =>
    obtain ⟨w, hw, h⟩ := hx
    exact .behind hw (hf a _ h q (known_none q))
  | error e q => exact hx

theorem look {f : Token → Parse α} (hf : ∀ t, Explains (some t) s (f t) P) :
    Explains k s (current >>= f) P := by
  rintro ⟨_ | ⟨t, ts⟩, i, n⟩ _
  · exact ⟨[], .refl _, .inr nofun⟩
  · exact hf t _ (known_some t ts)

theorem again {f : Token → Parse α} (hf : Explains (some t) s (f t) P) :
    Explains (some t) s (current >>= f) P := by
  rintro ⟨_ | ⟨u, us⟩, i, n⟩ hp
  · cases hp t rfl
  · cases hp t rfl
    exact hf _ (known_some t us)

theorem take {x : Parse α} (hx : Explains none (s.step t) x P) :
    Explains (some t) s (advance >>= fun _ => x) P := by
  rintro ⟨_ | ⟨u, us⟩, i, n⟩ hp
  · cases hp t rfl
  · cases hp t rfl
    exact .behind (w := [t]) ⟨rfl, rfl⟩ (hx ⟨us, i + 1, n⟩ (known_none _))

theorem blame {e : ParseError} (h : e = s.refusal t) :
    Explains (some t) s (throw e : Parse α) P := by
  intro p hp
  refine ⟨[], .refl p, .inr fun u hu => ?_⟩
  rw [hp t rfl] at hu
  cases hu
  exact h

end Explains

def Reads (x : Parse α) : Prop := ∀ {k s}, s.due → Explains k s x (Rests s.constructs)

namespace Reads

variable {s : Scan} {cs : List Construct} {t : Token}

section

variable {operator? : Kind → Option α} {operand : Parse Expr}

theorem sections (ho : Reads operand) (hj : ∀ k op, operator? k = some op → Joins k) (n : Nat) :
    ∀ {k s}, Rests cs s → Explains k s (Parser.sections operator? operand n) (Rests cs) := by
  induction n with
  | zero => exact fun hs => .look fun _ => .pure hs
  | succ n ih =>
    intro k s hs
    refine .look fun t => ?_
    cases h : operator? t.kind with
    | none => exact .pure hs
    | some op =>
      have ht := hj t.kind op h
      have hc := (s.constructs_step_of_joins ht).trans hs.constructs_eq
      refine .take ((ho (s := s.step t) ht.1).bind fun e s' hs' => ?_)
      rw [hc] at hs'
      exact (ih hs').bind fun more s'' hs'' => .pure hs''

theorem chain (ho : Reads operand) (hj : ∀ k op, operator? k = some op → Joins k)
    (hs : Rests cs s) : Explains k s (Parser.chain operator? operand) (Rests cs) := by
  refine .look fun t => ?_
  cases operator? t.kind with
  | none => exact .pure hs
  | some op => exact fun p hp => sections ho hj p.rest.length hs p hp

end

variable {down : Down}

def Deeper (down : Down) : Prop := ∀ entry t, Reads (down entry t)

theorem expression (hd : Deeper down) : Reads (Parser.expression down) :=
  fun hs => .look fun t => hd .expression t hs

theorem call (hd : Deeper down) {name : Token} (hs : s.due)
    (hc : s.constructs = .call name :: cs) :
    Explains none s (Parser.call down name) (Rests cs) := by
  have close {args : List Expr} {s : Scan} (hs : Rests (.call name :: cs) s) :
      Explains none s (do
        let closing ← current
        if closing.kind = .rightParen then
          advance
          Pure.pure (.call (.identifier name.lexeme name.location) args name.location)
        else throw (.callUnclosed name closing) : Parse Expr) (Rests cs) := by
    refine .look fun closing => ?_
    split
    next hk => exact .take (.pure (Scan.rests_of_rightParen hs.constructs_eq hk))
    next => exact .blame (Scan.refusal_of_rests hs closing).symm
  rw [Parser.call, Parser.arguments]
  simp only [bind_assoc]
  refine .look fun t => ?_
  split
  next hk =>
    rw [pure_bind]
    refine .again ?_
    rw [if_pos hk]
    exact .take (.pure (Scan.rests_of_rightParen hc hk))
  next =>
    simp only [bind_assoc, pure_bind]
    refine .bind (hc ▸ expression hd hs) fun first s' hs' => ?_
    exact .bind (chain (expression hd) (fun _ _ => Scan.joins_of_separator?) hs')
      fun more s'' hs'' => close hs''

theorem parenthesised (hd : Deeper down) {opening : Token} (hs : s.due)
    (hc : s.constructs = .group opening :: cs) :
    Explains none s (Parser.parenthesised down opening) (Rests cs) := by
  refine .bind (hc ▸ expression hd hs) fun e s' hs' => .look fun closing => ?_
  split
  next hk => exact .take (.pure (Scan.rests_of_rightParen hs'.constructs_eq hk))
  next => exact .blame (Scan.refusal_of_rests hs' closing).symm

theorem named (hd : Deeper down) {name : Token} (hk : name.kind = .identifier)
    (hl : s.last = some name) (hs : Rests cs s) :
    Explains none s (Parser.named down name) (Rests cs) := by
  refine .look fun t => ?_
  split
  next ht =>
    refine .take (call hd (Scan.due_step s ht) ?_)
    rw [s.constructs_step_leftParen ht, Scan.entered_of_name hl hk, hs.constructs_eq]
  next => exact .pure hs

theorem operand (hd : Deeper down) : Reads (Parser.operand down) := by
  intro k s hs
  refine .look fun t => ?_
  cases hk : t.kind
  case identifier => exact .take (named hd hk rfl (s.rests_of_atom (by simp [hk])))
  case leftParen =>
    refine .take (parenthesised hd (Scan.due_step s hk) ?_)
    rw [s.constructs_step_leftParen hk, Scan.entered_of_due hs]
  case number | string | wordTrue | wordFalse =>
    exact .take (.pure (s.rests_of_atom (by simp [hk])))
  all_goals exact .blame (Scan.refusal_of_due hs t).symm

theorem unary (hd : Deeper down) (op : UnaryOp) (hn : Reads (op.level.next.parser down)) :
    Reads (op.level.parser down) := by
  intro k s hs
  rw [Grammar.parser_unary]
  refine .look fun t => ?_
  cases h : op.level.unaryOp? t.kind with
  | none => exact hn hs
  | some o =>
    have ht := Scan.joins_of_unaryOp? h
    refine .take (.bind (hd op.entry t (s := s.step t) ht.1) fun e s' hs' => .pure ?_)
    rwa [s.constructs_step_of_joins ht] at hs'

theorem chained {l : Level} (hl : l.chained) (hn : Reads (l.next.parser down)) :
    Reads (l.parser down) := by
  intro k s hs
  rw [Grammar.parser_chained _ hl]
  refine .bind (hn hs) fun first s' hs' => ?_
  exact .bind (chain hn (fun _ _ => Scan.joins_of_operator?) hs') fun more s'' hs'' => .pure hs''

theorem relation (hn : Reads (Parser.sum down)) : Reads (Parser.relation down) := by
  intro k s hs
  refine .bind (hn hs) fun left s' hs' => .look fun t => ?_
  cases h : relationOp? t.kind with
  | none => exact .pure hs'
  | some op =>
    have ht := Scan.joins_of_operator? (l := .relation) h
    refine .take (.bind (hn (s := s'.step t) ht.1) fun right s'' hs'' => .pure ?_)
    rwa [s'.constructs_step_of_joins ht, hs'.constructs_eq] at hs''

theorem conditional (hd : Deeper down) (hn : Reads (Parser.disjunction down)) :
    Reads (Parser.conditional down) := by
  intro k s hs
  refine .bind (hn hs) fun test s₁ h₁ => .look fun question => ?_
  split
  case isFalse => exact .pure h₁
  case isTrue hq =>
    have hc := s₁.constructs_step_question hq
    rw [h₁.constructs_eq] at hc
    refine .take (.bind (hn (Scan.due_step s₁ hq)) fun accept s₂ h₂ => .look fun colon => ?_)
    rw [hc] at h₂
    split
    case isTrue hcolon =>
      refine .take (.bind (expression hd (Scan.due_step s₂ hcolon)) fun reject s₃ h₃ => .pure ?_)
      rwa [Scan.constructs_step_closing h₂.constructs_eq (.inr hcolon)] at h₃
    case isFalse => exact .blame (Scan.refusal_of_rests h₂ colon).symm

theorem level (hd : Deeper down) (l : Level) : Reads (l.parser down) := by
  induction l using Level.ascend with
  | operand => exact operand hd
  | chained l hl ih => exact chained hl ih
  | unary op ih => exact unary hd op ih
  | relation ih => exact relation ih
  | conditional ih => exact conditional hd ih

theorem body (hd : Deeper down) (entry : Entry) : Reads (Parser.body down entry) := by
  cases entry
  · exact level hd .conditional
  · exact level hd .negation
  · exact level hd .signed

theorem nested (limit : Int) (left : Nat) : Deeper (Parser.nested limit left) := by
  induction left with
  | zero => exact fun entry t k s hs p hp => ⟨[], ⟨rfl, rfl⟩, .inl ⟨limit, t, rfl⟩⟩
  | succ left ih =>
    intro entry t k s hs p hp
    have hb := body ih entry (k := none) hs { p with nesting := p.nesting + 1 } (known_none _)
    have hw : p.Passes [] { p with nesting := p.nesting + 1 } := ⟨rfl, rfl⟩
    rw [nested_succ]
    generalize Parser.body _ entry _ = r at hb ⊢
    cases r with
    | ok e q =>
      obtain ⟨u, hu, h⟩ := hb
      exact .behind hw ⟨u, ⟨hu.rest_eq, hu.position_eq⟩, h⟩
    | error e q => exact .behind hw hb

end Reads

theorem explains_whole {down : Down} (hd : Reads.Deeper down) :
    Explains none {} (whole down) (Rests []) := by
  refine .bind (Reads.expression hd rfl) fun e s hs => .look fun t => ?_
  split
  · exact .pure hs
  · exact .blame (Scan.refusal_of_rests_nil hs t).symm

end Parser

open Formulae.Parser

theorem eq_refusal_of_formula_error {limit : Int} (h : tokens.length < limit)
    (he : formula limit (ofTokens tokens) = .error e q) (hi : q.position < tokens.length) :
    e = (({} : Scan).along (tokens.take q.position)).refusal tokens[q.position] := by
  have hx := explains_whole (Reads.nested limit limit.toNat) (ofTokens tokens) (known_none _)
  rw [← formula_ofTokens, he] at hx
  obtain ⟨w, hw, hx⟩ := hx
  have hr : tokens = w ++ q.rest := hw.rest_eq
  have hq : q.position = w.length := by simpa [ofTokens] using hw.position_eq
  have ht : tokens.take q.position = w := by rw [hq, hr, List.take_left]
  have hn : q.rest.head? = some tokens[q.position] := by
    rw [← List.getElem?_eq_getElem hi, ← List.head?_drop, hq, hr, List.drop_left]
  obtain ⟨limit', t, rfl⟩ | hx := hx
  · exact absurd he (within_formula h limit' t q)
  · rw [ht]
    exact hx _ hn

/-- Where an operand is due a token is refused that starts none. Anywhere else the innermost
construct that is open tells what was expected, and if there is none, it was the end. -/
theorem refused_by_innermost_construct {limit : Int} (h : tokens.length < limit)
    (he : formula limit (ofTokens tokens) = .error e q) (hi : q.position < tokens.length) :
    let s := ({} : Scan).along (tokens.take q.position)
    let t := tokens[q.position]
    (s.due = true → e = .operandExpected t ∧ e.toDiagnostic.kind = .unexpectedToken t) ∧
    (s.due = false →
      (s.constructs = [] → e = .endExpected t ∧ e.toDiagnostic.kind = .unexpectedToken t ∧
        e.toDiagnostic.message =
          s!"Unexpected token after complete expression: {t.describe}") ∧
      ∀ c around, s.constructs = c :: around → e = c.unclosed t ∧ c.Reports e.toDiagnostic) := by
  intro s t
  have he : e = s.refusal t := eq_refusal_of_formula_error h he hi
  refine ⟨fun hd => ?_, fun hd => ⟨fun hc => ?_, fun c around hc => ?_⟩⟩
  · obtain rfl := he.trans (Scan.refusal_of_due hd t)
    exact ⟨rfl, rfl⟩
  · obtain rfl := he.trans (Scan.refusal_of_rests_nil ⟨hc, hd⟩ t)
    exact ⟨rfl, rfl, rfl⟩
  · obtain rfl := he.trans (Scan.refusal_of_rests ⟨hc, hd⟩ t)
    exact ⟨rfl, c.reports_unclosed t⟩

/-- `f(1 ? (2,`, where the comma comes too early for the parenthesis, the colon and the call. -/
theorem refused_by_innermost_construct_of_group :
    let f : Token := ⟨.identifier, "f", 1, 1⟩
    let opening : Token := ⟨.leftParen, "(", 1, 7⟩
    let two : Token := ⟨.number, "2", 1, 8⟩
    let comma : Token := ⟨.comma, ",", 1, 9⟩
    let before : List Token := [f, ⟨.leftParen, "(", 1, 2⟩, ⟨.number, "1", 1, 3⟩,
      ⟨.question, "?", 1, 5⟩, opening, two]
    let d := (ParseError.parenExpected opening comma).toDiagnostic
    formula 8 (ofTokens (before ++ [comma])) =
        .error (.parenExpected opening comma) ⟨[comma], 6, 2⟩ ∧
      ({} : Scan).along before = ⟨[.group opening, .branch, .call f], two⟩ ∧
      d.kind = .expectedClosingParen ∧
      d.context = "The '(' at line 1, column 7 is never closed" := by
  intro f opening two comma before d
  have he : formula 8 (ofTokens (before ++ [comma])) =
    .error (.parenExpected opening comma) ⟨[comma], 6, 2⟩ := rfl
  obtain ⟨-, h⟩ := refused_by_innermost_construct (by decide) he (by decide)
  exact ⟨he, rfl, ((h rfl).2 _ _ rfl).2⟩

end Formulae
