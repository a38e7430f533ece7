import Formulae.Proofs.Parsing.Levels
import Formulae.Proofs.Parsing.Predictive

namespace Formulae

open Token (Kind)

namespace Parser

open Grammar (Level)

namespace Predictive

section

variable {operator? : Kind → Option α} {operand : Down → Parse Expr}

theorem sections (ho : Predictive none true operand) (n : Nat) :
    ∀ {k}, Predictive k b fun down => Parser.sections operator? (operand down) n := by
  induction n generalizing b with
  | zero => exact .look fun _ => .pure []
  | succ n ih =>
    refine .look fun t => ?_
    cases operator? t.kind with
    | none => exact .pure []
    | some op => exact .take (.bind ho fun e => .bind ih fun more => .pure _)

theorem chain (ho : Predictive none true operand) :
    Predictive k b fun down => Parser.chain operator? (operand down) :=
  .enough (fun n down => Parser.sections operator? (operand down) n) (fun n => sections ho n)
    fun _ hd _ _ hp => chain_eq_sections (ho.advances hd).shrinks hp

end

theorem expression : Predictive k true Parser.expression := .look fun t => .descend .expression t

theorem arguments : Predictive k true Parser.arguments := by
  refine .look fun t => ?_
  split
  · exact .pure []
  · exact .bind expression fun first => .bind (chain expression) fun more => .pure _

theorem call (name : Token) : Predictive k true fun down => Parser.call down name := by
  refine .bind arguments fun args => .look fun closing => ?_
  split
  · exact .take (.pure _)
  · exact .blame rfl

theorem parenthesised (opening : Token) :
    Predictive k true fun down => Parser.parenthesised down opening := by
  refine .bind expression fun e => .look fun closing => ?_
  split
  · exact .take (.pure _)
  · exact .blame rfl

theorem named (name : Token) : Predictive k true fun down => Parser.named down name := by
  refine .look fun t => ?_
  split
  · exact .take (call name)
  · exact .pure _

theorem operand : Predictive k b Parser.operand := by
  refine .look fun t => ?_
  cases t.kind
  case identifier => exact .take (named t)
  case leftParen => exact .take (parenthesised t)
  case number | string | wordTrue | wordFalse => exact .take (.pure _)
  all_goals exact .blame rfl

theorem unary (op : UnaryOp)
    (hn : ∀ {k}, Predictive k b fun down => op.level.next.parser down) :
    Predictive k b fun down => op.level.parser down := by
  simp only [Grammar.parser_unary]
  refine .look fun t => ?_
  cases op.level.unaryOp? t.kind with
  | none => exact hn
  | some o => exact .take (.bind (.descend op.entry t) fun e => .pure _)

theorem chained {l : Level} (hl : l.chained)
    (hn : ∀ {k b}, Predictive k b fun down => l.next.parser down) :
    Predictive k b fun down => l.parser down := by
  simp only [Grammar.parser_chained _ hl]
  exact .bind hn fun first => .bind (chain hn) fun more => .pure _

theorem relation (hn : ∀ {k b}, Predictive k b Parser.sum) : Predictive k b Parser.relation := by
  refine .bind hn fun left => .look fun t => ?_
  cases relationOp? t.kind with
  | none => exact .pure left
  | some op => exact .take (.bind hn fun right => .pure _)

theorem conditional (hn : ∀ {k b}, Predictive k b Parser.disjunction) :
    Predictive k b Parser.conditional := by
  refine .bind hn fun test => .look fun question => ?_
  split
  case isFalse => exact .pure test
  case isTrue =>
    refine .take (.bind hn fun accept => .look fun colon => ?_)
    split
    · exact .take (.bind expression fun reject => .pure _)
    · exact .blame rfl

theorem level (l : Level) : ∀ {k b}, Predictive k b fun down => l.parser down := by
  induction l using Level.ascend with
  | operand => exact operand
  | chained l hl ih => exact chained hl ih
  | unary op ih => exact unary op ih
  | relation ih => exact relation ih
  | conditional ih => exact conditional ih

theorem body (entry : Entry) : Predictive k b fun down => Parser.body down entry := by
  cases entry
  · exact level .conditional
  · exact level .negation
  · exact level .signed

end Predictive

def whole (down : Down) : Parse Expr := do
  let e ← expression down
  let t ← current
  if t.kind = .endOfInput then pure e else throw (.endExpected t)

theorem formula_ofTokens (limit : Int) (tokens : List Token) :
    formula limit (ofTokens tokens) = whole (nested limit limit.toNat) (ofTokens tokens) := by
  rw [show limit.toNat = levels limit (ofTokens tokens) by simp [levels, ofTokens]]
  rfl

theorem predictive_whole : Predictive none true whole := by
  refine .bind .expression fun e => .look fun t => ?_
  split
  · exact .pure e
  · exact .blame rfl

theorem nested_succ (limit : Int) (left : Nat) (entry : Entry) (t : Token) (p : Parser) :
    nested limit (left + 1) entry t p =
      match body (nested limit left) entry { p with nesting := p.nesting + 1 } with
      | .ok e q => .ok e { q with nesting := q.nesting - 1 }
      | .error e q => .error e q := by
  change (body (nested limit left) entry >>= fun e => do close; pure e)
    { p with nesting := p.nesting + 1 } = _
  simp only [bind, EStateM.bind]
  cases body (nested limit left) entry _ <;> rfl

section

variable (limit : Int) (left : Nat) (entry : Entry) (t : Token)

theorem advances_nested : Advances (nested limit left entry t) := by
  induction left generalizing entry t with
  | zero => exact fun p => ⟨[], rfl, rfl⟩
  | succ left ih =>
    intro p
    obtain ⟨w, hw⟩ := (Predictive.body (k := none) (b := false) entry).advances ih
      { p with nesting := p.nesting + 1 }
    refine ⟨w, ?_⟩
    rw [nested_succ]
    split
    all_goals
      next h => rw [h] at hw; exact ⟨hw.rest_eq, hw.position_eq⟩

theorem blamed_nested (p : Parser) : Blamed (nested limit left entry t p) := by
  induction left generalizing entry t p with
  | zero => rintro e q ⟨⟩; exact .inl ⟨limit, t, rfl⟩
  | succ left ih =>
    intro e q h
    rw [nested_succ] at h
    split at h
    next => cases h
    next h' =>
      cases h
      exact (Predictive.body (k := none) (b := false) entry).blamed (advances_nested limit left) ih
        (known_none _) _ _ h'

theorem within_nested (p : Parser) (hp : p.rest.length + 1 ≤ left) :
    Within (nested limit left entry t p) := by
  induction left generalizing entry t p with
  | zero => cases hp
  | succ left ih =>
    intro limit' t' q h
    rw [nested_succ] at h
    split at h
    next => cases h
    next h' =>
      cases h
      exact (Predictive.body (k := none) (b := false) entry).within (advances_nested limit left) ih
        (known_none { p with nesting := p.nesting + 1 }) (Nat.le_of_succ_le_succ hp) _ _ _ h'

end

theorem imitates_nested (limit limit' : Int) {left left' : Nat} (h : left ≤ left') (entry : Entry)
    (t : Token) : Imitates n (nested limit left entry t) (nested limit' left' entry t) := by
  induction left generalizing left' entry t with
  | zero => exact fun p p' _ hr => absurd rfl (hr.within limit t _)
  | succ left ih =>
    obtain ⟨left', rfl⟩ : ∃ m, left' = m + 1 := ⟨left' - 1, by omega⟩
    have hb := (Predictive.body (k := none) (b := false) entry).imitates
      (advances_nested limit left) (advances_nested limit' left') (ih (Nat.le_of_succ_le_succ h))
    refine fun p p' hp hr => ?_
    have hb := hb { p with nesting := p.nesting + 1 } { p' with nesting := p'.nesting + 1 }
      ⟨hp.rest_eq, hp.position_eq, by rw [hp.nesting_eq]⟩
    simp only [nested_succ] at hr ⊢
    generalize body (nested limit left) entry _ = r, body (nested limit' left') entry _ = r'
      at hb hr ⊢
    cases r with
    | ok e q =>
      cases hb ⟨hr.position_lt, by rintro _ _ _ ⟨⟩⟩ with
      | ok _ hq => exact .ok e ⟨hq.rest_eq, hq.position_eq, by rw [hq.nesting_eq]⟩
    | error e q =>
      cases hb hr with
      | error _ hq => exact .error e hq

end Parser

end Formulae
