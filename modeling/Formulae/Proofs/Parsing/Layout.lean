import Formulae.Proofs.Alike
import Formulae.Proofs.Parsing.Blame
import Formulae.Proofs.Simulation

namespace Formulae

open Token (Kind)
open Formulae.Grammar (Level)

structure ParseError.Alike (R : Location → Location → Prop) (e e' : ParseError) : Prop where
  case_eq : e.toDiagnostic.kind.ctorIdx = e'.toDiagnostic.kind.ctorIdx
  shown : Option.Rel (Token.Alike R) e.shown? e'.shown?

namespace Parser

structure Alike (R : Location → Location → Prop) (p p' : Parser) : Prop where
  rest : List.Forall₂ (Token.Alike R) p.rest p'.rest
  nesting_eq : p.nesting = p'.nesting

structure AlikeSection (R : Location → Location → Prop) (s s' : α × Token × Expr) : Prop where
  op_eq : s.1 = s'.1
  token : s.2.1.Alike R s'.2.1
  operand : s.2.2.Alike R s'.2.2

abbrev Blind (R : Location → Location → Prop) (A : α → α → Prop) (x x' : Parse α) : Prop :=
  Simulates (Alike R) (ParseError.Alike R) A x x'

variable {R : Location → Location → Prop}

theorem leanLeft_alike {first first' : Expr} {more more' : List (BinaryOp × Token × Expr)}
    (hf : first.Alike R first') (hm : List.Forall₂ (AlikeSection R) more more') :
    (leanLeft first more).Alike R (leanLeft first' more') := by
  induction hm generalizing first first' with
  | nil => exact hf
  | @cons s s' more more' hs hm ih =>
    obtain ⟨op, t, e⟩ := s
    obtain ⟨rfl, ht, he⟩ := hs
    exact ih (.binary ht.location hf he)

theorem leanRight_alike {first first' : Expr} {more more' : List (BinaryOp × Token × Expr)}
    (hf : first.Alike R first') (hm : List.Forall₂ (AlikeSection R) more more') :
    (leanRight first more).Alike R (leanRight first' more') := by
  induction hm generalizing first first' with
  | nil => exact hf
  | @cons s s' more more' hs hm ih =>
    obtain ⟨op, t, e⟩ := s
    obtain ⟨rfl, ht, he⟩ := hs
    exact .binary ht.location hf (ih he)

namespace Blind

variable {A : α → α → Prop}

theorem blame {e e' : ParseError} (ht : t.Alike R t') (h : e.shown? = some t)
    (h' : e'.shown? = some t')
    (hk : e.toDiagnostic.kind.ctorIdx = e'.toDiagnostic.kind.ctorIdx) :
    Blind R A (throw e) (throw e') :=
  .throw ⟨hk, by rw [h, h']; exact .some ht⟩

theorem look {f f' : Token → Parse α} (hf : ∀ t t', t.Alike R t' → Blind R A (f t) (f' t')) :
    Blind R A (current >>= f) (current >>= f') := by
  rintro ⟨_, i, n⟩ ⟨_, i', n'⟩ ⟨_ | ⟨ht, hs⟩, hn⟩
  · exact .error ⟨rfl, .none⟩ ⟨.nil, hn⟩
  · exact hf _ _ ht _ _ ⟨.cons ht hs, hn⟩

theorem take {x x' : Parse α} (hx : Blind R A x x') :
    Blind R A (advance >>= fun _ => x) (advance >>= fun _ => x') := by
  rintro ⟨_, i, n⟩ ⟨_, i', n'⟩ ⟨_ | ⟨ht, hs⟩, hn⟩
  · exact hx _ _ ⟨.nil, hn⟩
  · exact hx _ _ ⟨hs, hn⟩

section

variable {operator? : Kind → Option α} {operand operand' : Parse Expr}

theorem sections (ho : Blind R (Expr.Alike R) operand operand') (n : Nat) :
    Blind R (List.Forall₂ (AlikeSection R)) (Parser.sections operator? operand n)
      (Parser.sections operator? operand' n) := by
  induction n with
  | zero => exact look fun _ _ _ => .pure .nil
  | succ n ih =>
    refine look fun t t' ht => ?_
    rw [← ht.kind_eq]
    cases operator? t.kind with
    | none => exact .pure .nil
    | some op =>
      refine take (ho.bind fun e e' he => ih.bind fun more more' hm => ?_)
      exact .pure (.cons ⟨rfl, ht, he⟩ hm)

theorem chain (ho : Blind R (Expr.Alike R) operand operand') :
    Blind R (List.Forall₂ (AlikeSection R)) (Parser.chain operator? operand)
      (Parser.chain operator? operand') := by
  refine look fun t t' ht => ?_
  rw [← ht.kind_eq]
  cases operator? t.kind with
  | none => exact .pure .nil
  | some op =>
    intro p p' hp
    change EndAlike _ _ _ (Parser.sections operator? operand p.rest.length p)
      (Parser.sections operator? operand' p'.rest.length p')
    rw [hp.rest.length_eq]
    exact sections ho _ p p' hp

end

variable {down down' : Down}

def Deeper (R : Location → Location → Prop) (down down' : Down) : Prop :=
  ∀ entry t t', t.Alike R t' → Blind R (Expr.Alike R) (down entry t) (down' entry t')

theorem expression (hd : Deeper R down down') :
    Blind R (Expr.Alike R) (Parser.expression down) (Parser.expression down') :=
  look fun t t' ht => hd .expression t t' ht

theorem operands {more more' : List (Unit × Token × Expr)}
    (h : List.Forall₂ (AlikeSection R) more more') :
    List.Forall₂ (Expr.Alike R) (more.map fun (_, _, e) => e) (more'.map fun (_, _, e) => e) :=
  List.forall₂_map_left_iff.2 (List.forall₂_map_right_iff.2 (h.imp fun _ _ hs => hs.operand))

theorem arguments (hd : Deeper R down down') :
    Blind R (List.Forall₂ (Expr.Alike R)) (Parser.arguments down) (Parser.arguments down') := by
  refine look fun t t' ht => ?_
  rw [← ht.kind_eq]
  split
  · exact .pure .nil
  · refine (expression hd).bind fun first first' hf => ?_
    exact (chain (expression hd)).bind fun more more' hm => .pure (.cons hf (operands hm))

theorem call (hd : Deeper R down down') (hn : name.Alike R name') :
    Blind R (Expr.Alike R) (Parser.call down name) (Parser.call down' name') := by
  refine (arguments hd).bind fun args args' ha => look fun closing closing' hc => ?_
  rw [← hc.kind_eq, ← hn.lexeme_eq]
  split
  · exact take (.pure (.call hn.location hn.location ha))
  · exact blame hc rfl rfl rfl

theorem parenthesised (hd : Deeper R down down') (opening opening' : Token) :
    Blind R (Expr.Alike R) (Parser.parenthesised down opening)
      (Parser.parenthesised down' opening') := by
  refine (expression hd).bind fun e e' he => look fun closing closing' hc => ?_
  rw [← hc.kind_eq]
  split
  · exact take (.pure he)
  · exact blame hc rfl rfl rfl

theorem named (hd : Deeper R down down') (hn : name.Alike R name') :
    Blind R (Expr.Alike R) (Parser.named down name) (Parser.named down' name') := by
  refine look fun t t' ht => ?_
  rw [← ht.kind_eq, ← hn.lexeme_eq]
  split
  · exact take (call hd hn)
  · exact .pure (.identifier hn.location)

theorem operand (hd : Deeper R down down') :
    Blind R (Expr.Alike R) (Parser.operand down) (Parser.operand down') := by
  refine look fun t t' ht => ?_
  rw [← ht.kind_eq, ← ht.lexeme_eq]
  cases t.kind
  case identifier => exact take (named hd ht)
  case leftParen => exact take (parenthesised hd t t')
  case number => exact take (.pure (.number ht.location))
  case string => exact take (.pure (.string ht.location))
  case wordTrue | wordFalse => exact take (.pure (.boolean ht.location))
  all_goals exact blame ht rfl rfl rfl

theorem unary (hd : Deeper R down down') (op : UnaryOp)
    (hn : Blind R (Expr.Alike R) (op.level.next.parser down) (op.level.next.parser down')) :
    Blind R (Expr.Alike R) (op.level.parser down) (op.level.parser down') := by
  rw [Grammar.parser_unary, Grammar.parser_unary]
  refine look fun t t' ht => ?_
  rw [← ht.kind_eq]
  cases op.level.unaryOp? t.kind with
  | none => exact hn
  | some o =>
    exact take ((hd op.entry t t' ht).bind fun e e' he => .pure (.unary ht.location he))

theorem nest {first first' : Expr} {more more' : List (BinaryOp × Token × Expr)} (l : Level)
    (hf : first.Alike R first') (hm : List.Forall₂ (AlikeSection R) more more') :
    (l.nest first more).Alike R (l.nest first' more') := by
  have hl := leanLeft_alike hf hm
  have hr := leanRight_alike hf hm
  rw [Grammar.leanLeft_eq, Grammar.leanLeft_eq] at hl
  rw [Grammar.leanRight_eq, Grammar.leanRight_eq] at hr
  cases l <;> assumption

theorem chained {l : Level} (hl : l.chained)
    (hn : Blind R (Expr.Alike R) (l.next.parser down) (l.next.parser down')) :
    Blind R (Expr.Alike R) (l.parser down) (l.parser down') := by
  rw [Grammar.parser_chained _ hl, Grammar.parser_chained _ hl]
  refine hn.bind fun first first' hf => (chain hn).bind fun more more' hm => ?_
  exact .pure (nest l hf hm)

theorem relation (hn : Blind R (Expr.Alike R) (Parser.sum down) (Parser.sum down')) :
    Blind R (Expr.Alike R) (Parser.relation down) (Parser.relation down') := by
  refine hn.bind fun left left' hl => look fun t t' ht => ?_
  rw [← ht.kind_eq]
  cases relationOp? t.kind with
  | none => exact .pure hl
  | some op => exact take (hn.bind fun right right' hr => .pure (.binary ht.location hl hr))

theorem conditional (hd : Deeper R down down')
    (hn : Blind R (Expr.Alike R) (Parser.disjunction down) (Parser.disjunction down')) :
    Blind R (Expr.Alike R) (Parser.conditional down) (Parser.conditional down') := by
  refine hn.bind fun test test' ht => look fun question question' hq => ?_
  rw [← hq.kind_eq]
  split
  case isFalse => exact .pure ht
  case isTrue =>
    refine take (hn.bind fun accept accept' ha => look fun colon colon' hc => ?_)
    rw [← hc.kind_eq]
    split
    · refine take ((expression hd).bind fun reject reject' hr => ?_)
      exact .pure (.conditional hq.location ht ha hr)
    · exact blame hc rfl rfl rfl

theorem level (hd : Deeper R down down') (l : Level) :
    Blind R (Expr.Alike R) (l.parser down) (l.parser down') := by
  induction l using Level.ascend with
  | operand => exact operand hd
  | chained l hl ih => exact chained hl ih
  | unary op ih => exact unary hd op ih
  | relation ih => exact relation ih
  | conditional ih => exact conditional hd ih

theorem body (hd : Deeper R down down') (entry : Entry) :
    Blind R (Expr.Alike R) (Parser.body down entry) (Parser.body down' entry) := by
  cases entry
  · exact level hd .conditional
  · exact level hd .negation
  · exact level hd .signed

theorem nested (limit : Int) (left : Nat) :
    Deeper R (Parser.nested limit left) (Parser.nested limit left) := by
  have hopened : Blind R Eq opened opened :=
    .modify fun p p' hp => ⟨hp.rest, congrArg (· + 1) hp.nesting_eq⟩
  have hclose : Blind R Eq close close :=
    .modify fun p p' hp => ⟨hp.rest, congrArg (· - 1) hp.nesting_eq⟩
  induction left with
  | zero => exact fun entry t t' ht => hopened.bind fun _ _ _ => blame ht rfl rfl rfl
  | succ left ih =>
    intro entry t t' _
    refine hopened.bind fun _ _ _ => (body ih entry).bind fun e e' he => ?_
    exact hclose.bind fun _ _ _ => .pure he

theorem whole (hd : Deeper R down down') :
    Blind R (Expr.Alike R) (Parser.whole down) (Parser.whole down') := by
  refine (expression hd).bind fun e e' he => look fun t t' ht => ?_
  rw [← ht.kind_eq]
  split
  · exact .pure he
  · exact blame ht rfl rfl rfl

end Blind

end Parser

open Formulae.Parser

inductive ParsedAlike (R : Location → Location → Prop) :
    Except ParseError Expr → Except ParseError Expr → Prop
  | ok {e e' : Expr} (h : e.Alike R e') : ParsedAlike R (.ok e) (.ok e')
  | error {e e' : ParseError} (h : e.Alike R e') : ParsedAlike R (.error e) (.error e')

theorem parse_alike {R : Location → Location → Prop} {tokens tokens' : List Token}
    (h : List.Forall₂ (Token.Alike R) tokens tokens') (limit : Int) :
    ParsedAlike R (parse limit tokens) (parse limit tokens') := by
  have hw := Blind.whole (Blind.nested (R := R) limit limit.toNat) (ofTokens tokens)
    (ofTokens tokens') ⟨h, rfl⟩
  rw [← formula_ofTokens, ← formula_ofTokens] at hw
  rw [parse, parse]
  generalize formula limit (ofTokens tokens) = r, formula limit (ofTokens tokens') = r' at hw ⊢
  cases hw with
  | ok he _ => exact .ok he
  | error he _ => exact .error he

end Formulae
