import Formulae.Parser
import Formulae.Proofs.Grammar

namespace Formulae

open Token (Kind)
open Formulae.Parser (Parse Down Entry)

namespace Grammar

namespace Level

def operator? : Level → Kind → Option BinaryOp
  | .disjunction => Parser.disjunctionOp?
  | .conjunction => Parser.conjunctionOp?
  | .equality => Parser.equalityOp?
  | .relation => Parser.relationOp?
  | .sum => Parser.sumOp?
  | .product => Parser.productOp?
  | .power => Parser.powerOp?
  | _ => fun _ => none

def unaryOp? : Level → Kind → Option UnaryOp
  | .negation => fun k => if k = .wordNot then some .not else none
  | .signed => Parser.signOp?
  | _ => fun _ => none

theorem spelling_of_operator? {l : Level} {k : Kind} {op : BinaryOp}
    (h : l.operator? k = some op) : op.level = l ∧ k.spelling = op.symbol := by
  cases l <;> cases k <;> cases h <;> exact ⟨rfl, rfl⟩

theorem operator?_of_spelling {k : Kind} {op : BinaryOp} (h : k.spelling = op.symbol) :
    op.level.operator? k = some op := by
  revert h
  rcases op with op | op | op <;> cases op <;> cases k <;>
    simp [Kind.spelling, Kind.name, BinaryOp.symbol, ArithmeticOp.symbol, ComparisonOp.symbol,
      LogicOp.symbol, BinaryOp.level, operator?, Parser.disjunctionOp?, Parser.conjunctionOp?,
      Parser.equalityOp?, Parser.relationOp?, Parser.sumOp?, Parser.productOp?, Parser.powerOp?]

theorem spelling_of_unaryOp? {l : Level} {k : Kind} {op : UnaryOp}
    (h : l.unaryOp? k = some op) : op.level = l ∧ k.spelling = op.symbol := by
  cases l <;> cases k <;> cases h <;> exact ⟨rfl, rfl⟩

theorem unaryOp?_of_spelling {k : Kind} {op : UnaryOp} (h : k.spelling = op.symbol) :
    op.level.unaryOp? k = some op := by
  revert h
  cases op <;> cases k <;>
    simp [Kind.spelling, Kind.name, UnaryOp.symbol, UnaryOp.level, unaryOp?, Parser.signOp?]

def parser (down : Down) : Level → Parse Expr
  | .conditional => Parser.conditional down
  | .disjunction => Parser.disjunction down
  | .conjunction => Parser.conjunction down
  | .negation => Parser.negation down
  | .equality => Parser.equality down
  | .relation => Parser.relation down
  | .sum => Parser.sum down
  | .product => Parser.product down
  | .signed => Parser.signed down
  | .power => Parser.power down
  | .operand => Parser.operand down

end Level

theorem BinaryToken.operator?_eq (op : BinaryToken l) :
    l.operator? op.token.kind = some op.op := by
  obtain ⟨t, op, rfl, hs⟩ := op
  exact Level.operator?_of_spelling hs

theorem UnaryToken.unaryOp?_eq (op : UnaryToken l) : l.unaryOp? op.token.kind = some op.op := by
  obtain ⟨t, op, rfl, hs⟩ := op
  exact Level.unaryOp?_of_spelling hs

end Grammar

def Parser.Entry.level : Entry → Grammar.Level
  | .expression => .conditional
  | .negation => .negation
  | .sign => .signed

def UnaryOp.entry : UnaryOp → Entry
  | .not => .negation
  | .plus | .minus => .sign

theorem UnaryOp.level_entry (op : UnaryOp) : op.entry.level = op.level := by cases op <;> rfl

namespace Grammar

open Formulae.Parser (current advance chain separator? expression)

def operands (more : List (Unit × Token × Expr)) : List Expr := more.map fun (_, _, e) => e

def Symbol.parser (down : Down) : (σ : Symbol) → Parse σ.Meaning
  | .phrase l => l.parser down
  | .sections l => chain l.operator? (l.next.parser down)
  | .arguments => Parser.arguments down
  | .moreArguments => do
    let more ← chain separator? (expression down)
    pure (operands more)

theorem kind_eq_of_separator? {k : Kind} (h : separator? k = some u) : k = .comma := by
  unfold separator? at h
  split at h
  next => rfl
  next => cases h

section

variable {l : Level} (down : Down)

theorem leanLeft_eq (first : Expr) (more : List (BinaryOp × Token × Expr)) :
    Parser.leanLeft first more = nestLeft first more := by
  induction more generalizing first with
  | nil => rfl
  | cons s more ih => exact ih _

theorem leanRight_eq (first : Expr) (more : List (BinaryOp × Token × Expr)) :
    Parser.leanRight first more = nestRight first more := by
  induction more generalizing first with
  | nil => rfl
  | cons s more ih => simp [Parser.leanRight, nestRight, ih]

theorem parser_chained (h : l.chained) :
    l.parser down = (do
      let first ← l.next.parser down
      let more ← chain l.operator? (l.next.parser down)
      pure (l.nest first more)) := by
  cases l <;> simp [Level.chained] at h <;>
    simp [Level.parser, Parser.disjunction, Parser.conjunction, Parser.equality, Parser.sum,
      Parser.product, Parser.power, Parser.leftChain, Level.nest, Level.next, Level.operator?,
      leanLeft_eq, leanRight_eq]

theorem arguments_eq :
    Parser.arguments down = (do
      if (← current).kind = .rightParen then pure []
      else
        let first ← expression down
        let more ← Symbol.parser down .moreArguments
        pure (first :: more)) := by
  simp only [Parser.arguments, Symbol.parser, bind_assoc, pure_bind]
  rfl

theorem parser_unary (op : UnaryOp) :
    op.level.parser down = (do
      let t ← current
      match op.level.unaryOp? t.kind with
      | none => op.level.next.parser down
      | some o =>
        advance
        let e ← down op.entry t
        pure (.unary o e t.location)) := by
  cases op <;> simp only [UnaryOp.level, Level.parser, Parser.negation, Parser.signed] <;>
    refine bind_congr fun t => ?_
  case not => simp only [Level.unaryOp?]; split <;> rfl
  all_goals
    simp only [Level.unaryOp?]
    cases Parser.signOp? t.kind <;> rfl

end

end Grammar

end Formulae
