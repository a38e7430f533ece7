import Formulae.Proofs.Parsing.Acceptance
import Formulae.Proofs.Parsing.Trees
import Formulae.Proofs.Rendering

namespace Formulae

open Token (Kind)

def Token.Kind.keepsText : Kind → Bool
  | .identifier | .string | .number => true
  | _ => false

def Token.Kind.groups : Kind → Bool
  | .leftParen | .rightParen | .comma | .colon => true
  | _ => false

structure Trace where
  kind : Kind
  text : Option String
  location : Location
  deriving DecidableEq, Repr

def Token.trace (t : Token) : Trace :=
  ⟨t.kind, if t.kind.keepsText then some t.lexeme else none, t.location⟩

/-- What an expression keeps of these tokens. -/
def Token.traces (w : List Token) : List Trace :=
  (w.filter fun t => !t.kind.groups).map Token.trace

theorem Token.traces_append (w v : List Token) : traces (w ++ v) = traces w ++ traces v := by
  rw [traces, List.filter_append, List.map_append]
  rfl

theorem Token.traces_cons {t : Token} (ht : t.kind = k) (h : k.groups = false) (w : List Token) :
    traces (t :: w) =
      ⟨k, if k.keepsText then some t.lexeme else none, t.location⟩ :: traces w := by
  subst ht
  rw [traces, List.filter_cons_of_pos (by rw [h]; rfl), List.map_cons]
  rfl

theorem Token.traces_cons_bare {t : Token} (ht : t.kind = k)
    (h : k.groups = false ∧ k.keepsText = false) (w : List Token) :
    traces (t :: w) = ⟨k, none, t.location⟩ :: traces w := by
  rw [traces_cons ht h.1, h.2]
  rfl

theorem Token.traces_cons_of_groups {t : Token} (ht : t.kind = k) (h : k.groups)
    (w : List Token) : traces (t :: w) = traces w := by
  subst ht
  rw [traces, List.filter_cons_of_neg (by rw [h]; nofun)]
  rfl

namespace Expr

mutual

def traces : Expr → List Trace
  | .number text l => [⟨.number, some text, l⟩]
  | .string text l => [⟨.string, some text, l⟩]
  | .boolean value l => [⟨if value then .wordTrue else .wordFalse, none, l⟩]
  | .identifier name l => [⟨.identifier, some name, l⟩]
  | .unary op operand l => ⟨op.kind, none, l⟩ :: operand.traces
  | .binary op left right l => left.traces ++ ⟨op.kind, none, l⟩ :: right.traces
  | .conditional test accept reject l =>
    test.traces ++ ⟨.question, none, l⟩ :: (accept.traces ++ reject.traces)
  | .call callee arguments _ => callee.traces ++ tracesAll arguments
  | .extension .. => []

def tracesAll : List Expr → List Trace
  | [] => []
  | e :: es => e.traces ++ tracesAll es

end

end Expr

namespace Grammar

theorem BinaryToken.kind_eq (o : BinaryToken l) : o.token.kind = o.op.kind := by
  have h := o.operator?_eq
  generalize o.token.kind = k, o.op = op at h
  cases l <;> cases k <;> cases h <;> rfl

theorem UnaryToken.kind_eq (o : UnaryToken l) : o.token.kind = o.op.kind := by
  have h := o.unaryOp?_eq
  generalize o.token.kind = k, o.op = op at h
  cases l <;> cases k <;> cases h <;> rfl

theorem BinaryToken.traces_cons (o : BinaryToken l) (w : List Token) :
    Token.traces (o.token :: w) =
      ⟨o.op.kind, none, o.token.location⟩ :: Token.traces w := by
  refine Token.traces_cons_bare o.kind_eq ?_ w
  rcases o.op with op | op | op <;> cases op <;> exact ⟨rfl, rfl⟩

theorem UnaryToken.traces_cons (o : UnaryToken l) (w : List Token) :
    Token.traces (o.token :: w) =
      ⟨o.op.kind, none, o.token.location⟩ :: Token.traces w := by
  refine Token.traces_cons_bare o.kind_eq ?_ w
  cases o.op <;> exact ⟨rfl, rfl⟩

def Symbol.traces : (σ : Symbol) → σ.Meaning → List Trace
  | .phrase _, e => e.traces
  | .sections _, more => more.flatMap fun (op, t, e) => ⟨op.kind, none, t.location⟩ :: e.traces
  | .arguments, es => Expr.tracesAll es
  | .moreArguments, es => Expr.tracesAll es

theorem traces_nestLeft (first : Expr) (more : List (BinaryOp × Token × Expr)) :
    (nestLeft first more).traces = first.traces ++ Symbol.traces (.sections l) more := by
  induction more generalizing first with
  | nil => exact (List.append_nil _).symm
  | cons s more ih =>
    obtain ⟨op, t, e⟩ := s
    rw [nestLeft, ih]
    simp [Symbol.traces, Expr.traces]

theorem traces_nestRight (first : Expr) (more : List (BinaryOp × Token × Expr)) :
    (nestRight first more).traces = first.traces ++ Symbol.traces (.sections l) more := by
  induction more generalizing first with
  | nil => exact (List.append_nil _).symm
  | cons s more ih =>
    obtain ⟨op, t, e⟩ := s
    rw [nestRight, Expr.traces, ih]
    simp [Symbol.traces]

theorem traces_nest (l : Level) (first : Expr) (more : List (BinaryOp × Token × Expr)) :
    (l.nest first more).traces = first.traces ++ Symbol.traces (.sections l) more := by
  cases l with
  | power => exact traces_nestRight first more
  | _ => exact traces_nestLeft first more

theorem Derivation.traces_tree (d : Derivation σ) : σ.traces d.tree = Token.traces d.word := by
  induction d with
  | pass _ inner ih => exact ih
  | @chain l _ first more ihf ihm =>
    rw [word, Token.traces_append, ← ihf, ← ihm]
    exact traces_nest l first.tree more.tree
  | noSections => rfl
  | oneMore op operand more iho ihm =>
    rw [word, op.traces_cons, Token.traces_append, ← iho, ← ihm]
    rfl
  | conditional test question accept colon reject iht iha ihr =>
    rw [word, Token.traces_append, Token.traces_cons question.kind_eq rfl, Token.traces_append,
      Token.traces_cons_of_groups colon.kind_eq rfl, ← iht, ← iha, ← ihr]
    rfl
  | relation left op right ihl ihr =>
    rw [word, Token.traces_append, op.traces_cons, ← ihl, ← ihr]
    rfl
  | unary op operand ih =>
    rw [word, op.traces_cons, ← ih]
    rfl
  | name t | number t | string t | wordTrue t | wordFalse t =>
    rw [word, Token.traces_cons t.kind_eq rfl]
    rfl
  | group opening inner closing ih =>
    rw [word, Token.traces_cons_of_groups opening.kind_eq rfl, Token.traces_append,
      Token.traces_cons_of_groups closing.kind_eq rfl, ← ih]
    exact (List.append_nil _).symm
  | call callee opening args closing ih =>
    rw [word, Token.traces_cons callee.kind_eq rfl,
      Token.traces_cons_of_groups opening.kind_eq rfl, Token.traces_append,
      Token.traces_cons_of_groups closing.kind_eq rfl, ← ih]
    simp [Symbol.traces, Expr.traces, Token.traces, Kind.keepsText]
  | noArguments => rfl
  | someArguments first more ihf ihm =>
    rw [word, Token.traces_append, ← ihf, ← ihm]
    rfl
  | noMore => rfl
  | another comma argument more iha ihm =>
    rw [word, Token.traces_cons_of_groups comma.kind_eq rfl, Token.traces_append, ← iha, ← ihm]
    rfl

end Grammar

/-- Read from left to right, an expression has the tokens in front of the end, at their places and
without the grouping ones; and a call stands where its name does. -/
theorem parse_keeps_tokens {limit : Int} (h : parse limit tokens = .ok e) :
    e.traces = Token.traces (tokens.takeWhile fun t => t.kind ≠ .endOfInput) ∧
      ∀ callee args l, Expr.call callee args l ∈ e.nodes → callee.location = l := by
  refine ⟨?_, fun callee args l hn => ?_⟩
  · obtain ⟨d, last, rest, rfl, hl, rfl, -⟩ := derivation_of_parse h
    have hw : (d.word ++ last :: rest).takeWhile (fun t => t.kind ≠ .endOfInput) = d.word := by
      rw [List.takeWhile_append_of_pos fun t ht =>
          decide_eq_true (Grammar.kind_ne_endOfInput d t ht),
        List.takeWhile_cons_of_neg (by simp [hl]), List.append_nil]
    rw [hw]
    exact d.traces_tree
  · cases builtAt_of_parse h _ hn with
    | call => rfl

/-- `f(2^3^x, ("a")) ? -y : true` -/
theorem parse_keeps_tokens_of_call :
    let tokens : List Token := [⟨.identifier, "f", 1, 1⟩, ⟨.leftParen, "(", 1, 2⟩,
      ⟨.number, "2", 1, 3⟩, ⟨.caret, "^", 1, 4⟩, ⟨.number, "3", 1, 5⟩, ⟨.caret, "^", 1, 6⟩,
      ⟨.identifier, "x", 1, 7⟩, ⟨.comma, ",", 1, 8⟩, ⟨.leftParen, "(", 1, 10⟩,
      ⟨.string, "\"a\"", 1, 11⟩, ⟨.rightParen, ")", 1, 14⟩, ⟨.rightParen, ")", 1, 15⟩,
      ⟨.question, "?", 1, 17⟩, ⟨.minus, "-", 1, 19⟩, ⟨.identifier, "y", 1, 20⟩,
      ⟨.colon, ":", 1, 22⟩, ⟨.wordTrue, "true", 1, 24⟩, ⟨.endOfInput, "", 1, 28⟩]
    let power (text : String) (column : Int) (e : Expr) : Expr :=
      .binary (.arithmetic .power) (.number text (.ofPair 1 column)) e (.ofPair 1 (column + 1))
    let e : Expr := .conditional
      (.call (.identifier "f" (.ofPair 1 1))
        [power "2" 3 (power "3" 5 (.identifier "x" (.ofPair 1 7))),
          .string "\"a\"" (.ofPair 1 11)] (.ofPair 1 1))
      (.unary .minus (.identifier "y" (.ofPair 1 20)) (.ofPair 1 19))
      (.boolean true (.ofPair 1 24)) (.ofPair 1 17)
    parse 32 tokens = .ok e ∧ e.traces = Token.traces tokens.dropLast ∧
      e.traces.map (fun t => (t.kind, t.text)) = [(.identifier, some "f"), (.number, some "2"),
        (.caret, none), (.number, some "3"), (.caret, none), (.identifier, some "x"),
        (.string, some "\"a\""), (.question, none), (.minus, none), (.identifier, some "y"),
        (.wordTrue, none)] := by
  intro tokens power e
  have h : parse 32 tokens = .ok e := by rfl
  have ht : e.traces = Token.traces tokens.dropLast := (parse_keeps_tokens h).1
  refine ⟨h, ht, ?_⟩
  rw [ht]
  rfl

end Formulae
