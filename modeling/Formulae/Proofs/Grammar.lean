import Formulae.Expr
import Formulae.Token

/-!
The grammar of formulas, apart from any way to parse it: derivations as data, with the tokens that
they derive, the expression that they stand for and how deep they nest.
-/

namespace Formulae

namespace Grammar

open Token (Kind)

/-- The levels of the grammar; each binds looser than those that come later. -/
inductive Level
  | conditional | disjunction | conjunction | negation | equality | relation | sum | product
  | signed | power | operand
  deriving DecidableEq, Repr

namespace Level

def next : Level → Level
  | .conditional => .disjunction
  | .disjunction => .conjunction
  | .conjunction => .negation
  | .negation => .equality
  | .equality => .relation
  | .relation => .sum
  | .sum => .product
  | .product => .signed
  | .signed => .power
  | .power => .operand
  | .operand => .operand

def rank : Level → Nat
  | .conditional => 0
  | .disjunction => 1
  | .conjunction => 2
  | .negation => 3
  | .equality => 4
  | .relation => 5
  | .sum => 6
  | .product => 7
  | .signed => 8
  | .power => 9
  | .operand => 10

def chained : Level → Bool
  | .disjunction | .conjunction | .equality | .sum | .product | .power => true
  | _ => false

def optional : Level → Bool
  | .conditional | .negation | .relation | .signed => true
  | _ => false

end Level

end Grammar

open Grammar (Level)

def BinaryOp.level : BinaryOp → Level
  | .logic .or => .disjunction
  | .logic .and => .conjunction
  | .comparison .equal | .comparison .notEqual => .equality
  | .comparison _ => .relation
  | .arithmetic .add | .arithmetic .subtract => .sum
  | .arithmetic .power => .power
  | .arithmetic _ => .product

def UnaryOp.level : UnaryOp → Level
  | .not => .negation
  | .plus | .minus => .signed

namespace Grammar

open Token (Kind)

@[elab_as_elim]
theorem Level.ascend {P : Level → Prop} (operand : P .operand)
    (chained : ∀ l : Level, l.chained → P l.next → P l)
    (unary : ∀ op : UnaryOp, P op.level.next → P op.level) (relation : P .sum → P .relation)
    (conditional : P .disjunction → P .conditional) (l : Level) : P l := by
  have power := chained .power rfl operand
  have signed := unary .plus power
  have product := chained .product rfl signed
  have sum := chained .sum rfl product
  have relation := relation sum
  have equality := chained .equality rfl relation
  have negation := unary .not equality
  have conjunction := chained .conjunction rfl negation
  have disjunction := chained .disjunction rfl conjunction
  have conditional := conditional disjunction
  cases l <;> assumption

structure Terminal (kind : Kind) where
  token : Token
  kind_eq : token.kind = kind

structure BinaryToken (l : Level) where
  token : Token
  op : BinaryOp
  level_eq : op.level = l
  spelling_eq : token.kind.spelling = op.symbol

structure UnaryToken (l : Level) where
  token : Token
  op : UnaryOp
  level_eq : op.level = l
  spelling_eq : token.kind.spelling = op.symbol

/-- The symbols of the grammar: a phrase of each level, the operators of a chain with the operands
behind them, the arguments of a call, and those behind the first. -/
inductive Symbol
  | phrase (l : Level)
  | sections (l : Level)
  | arguments
  | moreArguments
  deriving DecidableEq, Repr

inductive Derivation : Symbol → Type
  | pass (optional : l.optional) (inner : Derivation (.phrase l.next)) : Derivation (.phrase l)
  | chain (chained : l.chained) (first : Derivation (.phrase l.next))
      (more : Derivation (.sections l)) : Derivation (.phrase l)
  | noSections : Derivation (.sections l)
  | oneMore (op : BinaryToken l) (operand : Derivation (.phrase l.next))
      (more : Derivation (.sections l)) : Derivation (.sections l)
  | conditional (test : Derivation (.phrase .disjunction)) (question : Terminal .question)
      (accept : Derivation (.phrase .disjunction)) (colon : Terminal .colon)
      (reject : Derivation (.phrase .conditional)) : Derivation (.phrase .conditional)
  | relation (left : Derivation (.phrase .sum)) (op : BinaryToken .relation)
      (right : Derivation (.phrase .sum)) : Derivation (.phrase .relation)
  | unary (op : UnaryToken l) (operand : Derivation (.phrase l)) : Derivation (.phrase l)
  | name (t : Terminal .identifier) : Derivation (.phrase .operand)
  | number (t : Terminal .number) : Derivation (.phrase .operand)
  | string (t : Terminal .string) : Derivation (.phrase .operand)
  | wordTrue (t : Terminal .wordTrue) : Derivation (.phrase .operand)
  | wordFalse (t : Terminal .wordFalse) : Derivation (.phrase .operand)
  | group (opening : Terminal .leftParen) (inner : Derivation (.phrase .conditional))
      (closing : Terminal .rightParen) : Derivation (.phrase .operand)
  | call (callee : Terminal .identifier) (opening : Terminal .leftParen)
      (args : Derivation .arguments) (closing : Terminal .rightParen) :
      Derivation (.phrase .operand)
  | noArguments : Derivation .arguments
  | someArguments (first : Derivation (.phrase .conditional))
      (more : Derivation .moreArguments) : Derivation .arguments
  | noMore : Derivation .moreArguments
  | another (comma : Terminal .comma) (argument : Derivation (.phrase .conditional))
      (more : Derivation .moreArguments) : Derivation .moreArguments

abbrev Symbol.Meaning : Symbol → Type
  | .phrase _ => Expr
  | .sections _ => List (BinaryOp × Token × Expr)
  | .arguments => List Expr
  | .moreArguments => List Expr

def nestLeft (first : Expr) : List (BinaryOp × Token × Expr) → Expr
  | [] => first
  | (op, t, e) :: more => nestLeft (.binary op first e t.location) more

def nestRight (first : Expr) : List (BinaryOp × Token × Expr) → Expr
  | [] => first
  | (op, t, e) :: more => .binary op first (nestRight e more) t.location

def Level.nest : Level → Expr → List (BinaryOp × Token × Expr) → Expr
  | .power => nestRight
  | _ => nestLeft

namespace Derivation

@[simp]
def word : Derivation σ → List Token
  | .pass _ inner => inner.word
  | .chain _ first more => first.word ++ more.word
  | .noSections => []
  | .oneMore op operand more => op.token :: (operand.word ++ more.word)
  | .conditional test question accept colon reject =>
    test.word ++ question.token :: (accept.word ++ colon.token :: reject.word)
  | .relation left op right => left.word ++ op.token :: right.word
  | .unary op operand => op.token :: operand.word
  | .name t | .number t | .string t | .wordTrue t | .wordFalse t => [t.token]
  | .group opening inner closing => opening.token :: (inner.word ++ [closing.token])
  | .call callee opening args closing =>
    callee.token :: opening.token :: (args.word ++ [closing.token])
  | .noArguments => []
  | .someArguments first more => first.word ++ more.word
  | .noMore => []
  | .another comma argument more => comma.token :: (argument.word ++ more.word)

@[simp]
def tree : Derivation σ → σ.Meaning
  | .pass _ inner => inner.tree
  | .chain (l := l) _ first more => l.nest first.tree more.tree
  | .noSections => []
  | .oneMore op operand more => (op.op, op.token, operand.tree) :: more.tree
  | .conditional test question accept _ reject =>
    .conditional test.tree accept.tree reject.tree question.token.location
  | .relation left op right => .binary op.op left.tree right.tree op.token.location
  | .unary op operand => .unary op.op operand.tree op.token.location
  | .name t => .identifier t.token.lexeme t.token.location
  | .number t => .number t.token.lexeme t.token.location
  | .string t => .string t.token.lexeme t.token.location
  | .wordTrue t => .boolean true t.token.location
  | .wordFalse t => .boolean false t.token.location
  | .group _ inner _ => inner.tree
  | .call callee _ args _ =>
    .call (.identifier callee.token.lexeme callee.token.location) args.tree callee.token.location
  | .noArguments => []
  | .someArguments first more => first.tree :: more.tree
  | .noMore => []
  | .another _ argument more => argument.tree :: more.tree

/-- How many levels are opened within a derivation, one inside the other: by a parenthesised
expression, an argument, the branch for a false test and the operand of `not` or of a sign. -/
@[simp]
def depth : Derivation σ → Nat
  | .pass _ inner => inner.depth
  | .chain _ first more => max first.depth more.depth
  | .noSections => 0
  | .oneMore _ operand more => max operand.depth more.depth
  | .conditional test _ accept _ reject =>
    max test.depth (max accept.depth (reject.depth + 1))
  | .relation left _ right => max left.depth right.depth
  | .unary _ operand => operand.depth + 1
  | .name _ | .number _ | .string _ | .wordTrue _ | .wordFalse _ => 0
  | .group _ inner _ => inner.depth + 1
  | .call _ _ args _ => args.depth
  | .noArguments => 0
  | .someArguments first more => max (first.depth + 1) more.depth
  | .noMore => 0
  | .another _ argument more => max (argument.depth + 1) more.depth

end Derivation

end Grammar

end Formulae
