import Formulae.Proofs.Parsing.Predictive

namespace Formulae

open Formulae.Grammar (Level)

namespace Parser

/-- A property that the smallest programs have, and any two in sequence if both have it. Only such
tokens are looked at and blamed. -/
structure Compositional (T : Token → Prop) (P : {α : Type} → Parse α → Prop) : Prop where
  pure {α : Type} (a : α) : P (pure a)
  bind {α β : Type} {x : Parse α} {f : α → Parse β} (hx : P x) (hf : ∀ a, P (f a)) : P (x >>= f)
  get : P get
  look {α : Type} {f : Token → Parse α} (hf : ∀ t, T t → P (f t)) : P (current >>= f)
  advance : P advance
  opened : P opened
  close : P close
  blame {α : Type} {e : ParseError} {t : Token} (ht : T t) (h : e.found? = some t) :
    P (throw e : Parse α)
  refuse {t : Token} (limit : Int) (ht : T t) : P (throw (.tooDeep limit t) : Parse Expr)

namespace Compositional

variable {T : Token → Prop} {P : {α : Type} → Parse α → Prop} (h : Compositional T P)
include h

theorem take {x : Parse α} (hx : P x) : P (Parser.advance >>= fun _ => x) :=
  h.bind h.advance fun _ => hx

section

variable {operator? : Token.Kind → Option α} {operand : Parse Expr}

theorem sections (ho : P operand) (n : Nat) : P (Parser.sections operator? operand n) := by
  induction n with
  | zero => exact h.look fun _ _ => h.pure []
  | succ n ih =>
    refine h.look fun t _ => ?_
    cases operator? t.kind with
    | none => exact h.pure []
    | some op => exact h.take (h.bind ho fun e => h.bind ih fun more => h.pure _)

theorem chain (ho : P operand) : P (Parser.chain operator? operand) := by
  refine h.look fun t _ => ?_
  cases operator? t.kind with
  | none => exact h.pure []
  | some op => exact h.bind h.get fun p => h.sections ho p.rest.length

end

section

variable {down : Down} (hd : ∀ entry t, T t → P (down entry t))
include hd

theorem expression : P (Parser.expression down) := h.look fun t ht => hd .expression t ht

theorem arguments : P (Parser.arguments down) := by
  have he := h.expression hd
  refine h.look fun t _ => ?_
  split
  · exact h.pure []
  · exact h.bind he fun first => h.bind (h.chain he) fun more => h.pure _

theorem call (name : Token) : P (Parser.call down name) := by
  refine h.bind (h.arguments hd) fun args => h.look fun closing hc => ?_
  split
  · exact h.take (h.pure _)
  · exact h.blame hc rfl

theorem parenthesised (opening : Token) : P (Parser.parenthesised down opening) := by
  refine h.bind (h.expression hd) fun e => h.look fun closing hc => ?_
  split
  · exact h.take (h.pure _)
  · exact h.blame hc rfl

theorem named (name : Token) : P (Parser.named down name) := by
  refine h.look fun t _ => ?_
  split
  · exact h.take (h.call hd name)
  · exact h.pure _

theorem operand : P (Parser.operand down) := by
  refine h.look fun t ht => ?_
  cases t.kind
  case identifier => exact h.take (h.named hd t)
  case leftParen => exact h.take (h.parenthesised hd t)
  case number | string | wordTrue | wordFalse => exact h.take (h.pure _)
  all_goals exact h.blame ht rfl

theorem unary (op : UnaryOp) (hn : P (op.level.next.parser down)) : P (op.level.parser down) := by
  rw [Grammar.parser_unary]
  refine h.look fun t ht => ?_
  cases op.level.unaryOp? t.kind with
  | none => exact hn
  | some o => exact h.take (h.bind (hd op.entry t ht) fun e => h.pure _)

omit hd in
theorem chained {l : Level} (hl : l.chained) (hn : P (l.next.parser down)) :
    P (l.parser down) := by
  rw [Grammar.parser_chained _ hl]
  exact h.bind hn fun first => h.bind (h.chain hn) fun more => h.pure _

omit hd in
theorem relation (hn : P (Parser.sum down)) : P (Parser.relation down) := by
  refine h.bind hn fun left => h.look fun t _ => ?_
  cases relationOp? t.kind with
  | none => exact h.pure left
  | some op => exact h.take (h.bind hn fun right => h.pure _)

theorem conditional (hn : P (Parser.disjunction down)) : P (Parser.conditional down) := by
  refine h.bind hn fun test => h.look fun question _ => ?_
  split
  case isFalse => exact h.pure test
  case isTrue =>
    refine h.take (h.bind hn fun accept => h.look fun colon hc => ?_)
    split
    · exact h.take (h.bind (h.expression hd) fun reject => h.pure _)
    · exact h.blame hc rfl

theorem level (l : Level) : P (l.parser down) := by
  induction l using Level.ascend with
  | operand => exact h.operand hd
  | chained l hl ih => exact h.chained hl ih
  | unary op ih => exact h.unary hd op ih
  | relation ih => exact h.relation ih
  | conditional ih => exact h.conditional hd ih

theorem body (entry : Entry) : P (Parser.body down entry) := by
  cases entry
  · exact h.level hd .conditional
  · exact h.level hd .negation
  · exact h.level hd .signed

end

theorem nested (limit : Int) (left : Nat) :
    ∀ entry t, T t → P (Parser.nested limit left entry t) := by
  induction left with
  | zero => exact fun entry t ht => h.bind h.opened fun _ => h.refuse limit ht
  | succ left ih =>
    exact fun entry t _ => h.bind h.opened fun _ =>
      h.bind (h.body ih entry) fun e => h.bind h.close fun _ => h.pure e

theorem formula (limit : Int) : P (Parser.formula limit) := by
  refine h.bind h.get fun p => h.bind (h.expression (h.nested limit _)) fun e => ?_
  refine h.look fun t ht => ?_
  split
  · exact h.pure e
  · exact h.blame ht rfl

end Compositional

end Parser

end Formulae
