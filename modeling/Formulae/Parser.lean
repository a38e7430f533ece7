import Formulae.Expr
import Formulae.ParseError

/-!
From tokens to an expression, by recursive descent:

    conditional  := disjunction ('?' disjunction ':' conditional)?
    disjunction  := conjunction ('or' conjunction)*
    conjunction  := negation ('and' negation)*
    negation     := 'not' negation | equality
    equality     := relation (('==' | '!=') relation)*
    relation     := sum (('<' | '<=' | '>' | '>=') sum)?
    sum          := product (('+' | '-') product)*
    product      := signed (('*' | '/' | '%') signed)*
    signed       := ('-' | '+') signed | power
    power        := operand ('^' operand)*
    operand      := name ('(' arguments? ')')? | '(' conditional ')'
                    | number | string | 'true' | 'false'

Each level is a function of `down`, which goes one nesting level deeper; only `nested` is recursive,
on the levels that are left. All chains lean to the left except that of `^`.
-/

namespace Formulae

open Token (Kind)

/-- The tokens that are left, how many were taken, and how many nesting levels are open. -/
structure Parser where
  rest : List Token
  position : Nat := 0
  nesting : Nat := 0
  deriving DecidableEq, Repr

namespace Parser

def ofTokens (tokens : List Token) : Parser := { rest := tokens }

def next (p : Parser) : Parser :=
  match p.rest with
  | [] => p
  | _ :: rest => { p with rest := rest, position := p.position + 1 }

abbrev Parse := EStateM ParseError Parser

def current : Parse Token := do
  match (← get).rest with
  | [] => throw .endMissing
  | token :: _ => pure token

def advance : Parse Unit := modify next

inductive Entry
  | expression | negation | sign
  deriving DecidableEq, Repr

abbrev Down := Entry → Token → Parse Expr

/-- The operators of a chain with the operands that follow them. It takes a token in each step, so
there are at most as many as tokens are left. -/
def sections (operator? : Kind → Option α) (operand : Parse Expr) :
    Nat → Parse (List (α × Token × Expr))
  | 0 => do
    let _ ← current
    pure []
  | steps + 1 => do
    let token ← current
    match operator? token.kind with
    | none => pure []
    | some op =>
      advance
      let e ← operand
      let more ← sections operator? operand steps
      pure ((op, token, e) :: more)

def chain (operator? : Kind → Option α) (operand : Parse Expr) :
    Parse (List (α × Token × Expr)) := do
  match operator? (← current).kind with
  | none => pure []
  | some _ => sections operator? operand (← get).rest.length

def leanLeft (first : Expr) (more : List (BinaryOp × Token × Expr)) : Expr :=
  more.foldl (fun left (op, token, right) => .binary op left right token.location) first

def leanRight (first : Expr) : List (BinaryOp × Token × Expr) → Expr
  | [] => first
  | (op, token, e) :: more => .binary op first (leanRight e more) token.location

def leftChain (operator? : Kind → Option BinaryOp) (operand : Parse Expr) : Parse Expr := do
  let first ← operand
  let more ← chain operator? operand
  pure (leanLeft first more)

def powerOp? : Kind → Option BinaryOp
  | .caret => some (.arithmetic .power)
  | _ => none

def signOp? : Kind → Option UnaryOp
  | .minus => some .minus
  | .plus => some .plus
  | _ => none

def productOp? : Kind → Option BinaryOp
  | .star => some (.arithmetic .multiply)
  | .slash => some (.arithmetic .divide)
  | .percent => some (.arithmetic .remainder)
  | _ => none

def sumOp? : Kind → Option BinaryOp
  | .plus => some (.arithmetic .add)
  | .minus => some (.arithmetic .subtract)
  | _ => none

def relationOp? : Kind → Option BinaryOp
  | .less => some (.comparison .less)
  | .lessEqual => some (.comparison .lessEqual)
  | .greater => some (.comparison .greater)
  | .greaterEqual => some (.comparison .greaterEqual)
  | _ => none

def equalityOp? : Kind → Option BinaryOp
  | .equalEqual => some (.comparison .equal)
  | .bangEqual => some (.comparison .notEqual)
  | _ => none

def conjunctionOp? : Kind → Option BinaryOp
  | .wordAnd => some (.logic .and)
  | _ => none

def disjunctionOp? : Kind → Option BinaryOp
  | .wordOr => some (.logic .or)
  | _ => none

def separator? : Kind → Option Unit
  | .comma => some ()
  | _ => none

def expression (down : Down) : Parse Expr := do down .expression (← current)

def arguments (down : Down) : Parse (List Expr) := do
  if (← current).kind = .rightParen then pure []
  else
    let first ← expression down
    let more ← chain separator? (expression down)
    pure (first :: more.map fun (_, _, e) => e)

def call (down : Down) (name : Token) : Parse Expr := do
  let args ← arguments down
  let closing ← current
  if closing.kind = .rightParen then
    advance
    pure (.call (.identifier name.lexeme name.location) args name.location)
  else throw (.callUnclosed name closing)

def parenthesised (down : Down) (opening : Token) : Parse Expr := do
  let e ← expression down
  let closing ← current
  if closing.kind = .rightParen then
    advance
    pure e
  else throw (.parenExpected opening closing)

def named (down : Down) (name : Token) : Parse Expr := do
  if (← current).kind = .leftParen then
    advance
    call down name
  else pure (.identifier name.lexeme name.location)

def operand (down : Down) : Parse Expr := do
  let token ← current
  match token.kind with
  | .identifier =>
    advance
    named down token
  | .leftParen =>
    advance
    parenthesised down token
  | .number =>
    advance
    pure (.number token.lexeme token.location)
  | .string =>
    advance
    pure (.string token.lexeme token.location)
  | .wordTrue =>
    advance
    pure (.boolean true token.location)
  | .wordFalse =>
    advance
    pure (.boolean false token.location)
  | _ => throw (.operandExpected token)

def power (down : Down) : Parse Expr := do
  let first ← operand down
  let more ← chain powerOp? (operand down)
  pure (leanRight first more)

def signed (down : Down) : Parse Expr := do
  let token ← current
  match signOp? token.kind with
  | none => power down
  | some op =>
    advance
    let e ← down .sign token
    pure (.unary op e token.location)

def product (down : Down) : Parse Expr := leftChain productOp? (signed down)

def sum (down : Down) : Parse Expr := leftChain sumOp? (product down)

/-- At most one relational operator; a second one is left for what follows. -/
def relation (down : Down) : Parse Expr := do
  let left ← sum down
  let token ← current
  match relationOp? token.kind with
  | none => pure left
  | some op =>
    advance
    let right ← sum down
    pure (.binary op left right token.location)

def equality (down : Down) : Parse Expr := leftChain equalityOp? (relation down)

def negation (down : Down) : Parse Expr := do
  let token ← current
  if token.kind = .wordNot then
    advance
    let e ← down .negation token
    pure (.unary .not e token.location)
  else equality down

def conjunction (down : Down) : Parse Expr := leftChain conjunctionOp? (negation down)

def disjunction (down : Down) : Parse Expr := leftChain disjunctionOp? (conjunction down)

/-- The branch for a true test is a disjunction, so a conditional there needs parentheses. -/
def conditional (down : Down) : Parse Expr := do
  let test ← disjunction down
  let question ← current
  if question.kind = .question then
    advance
    let accept ← disjunction down
    let colon ← current
    if colon.kind = .colon then
      advance
      let reject ← expression down
      pure (.conditional test accept reject question.location)
    else throw (.colonExpected colon)
  else pure test

def body (down : Down) : Entry → Parse Expr
  | .expression => conditional down
  | .negation => negation down
  | .sign => signed down

def opened : Parse Unit := modify fun p => { p with nesting := p.nesting + 1 }

def close : Parse Unit := modify fun p => { p with nesting := p.nesting - 1 }

/-- Goes one level deeper as long as levels are left. After a failure the levels stay open. -/
def nested (limit : Int) : Nat → Down
  | 0, _, token => do
    opened
    throw (.tooDeep limit token)
  | left + 1, entry, _ => do
    opened
    let e ← body (nested limit left) entry
    close
    pure e

def levels (limit : Int) (p : Parser) : Nat := (limit - p.nesting).toNat

def formula (limit : Int) : Parse Expr := do
  let e ← expression (nested limit (levels limit (← get)))
  let token ← current
  if token.kind = .endOfInput then pure e else throw (.endExpected token)

end Parser

def parse (limit : Int) (tokens : List Token) : Except ParseError Expr :=
  match Parser.formula limit (Parser.ofTokens tokens) with
  | .ok e _ => .ok e
  | .error e _ => .error e

end Formulae
