import Formulae.Token

namespace Formulae.Lexeme

open Token (Kind)

inductive Stuck
  | unterminatedString
  | unknownCharacter
  deriving DecidableEq, Repr

def isBlank (c : Char) : Bool := c = ' ' || c = '\t' || c = '\r' || c = '\n'

def single? : Char → Option Kind
  | '(' => some .leftParen
  | ')' => some .rightParen
  | ',' => some .comma
  | '?' => some .question
  | ':' => some .colon
  | '+' => some .plus
  | '-' => some .minus
  | '*' => some .star
  | '/' => some .slash
  | '%' => some .percent
  | '^' => some .caret
  | _ => none

def wordKind (word : List Char) : Kind :=
  if word = ['o', 'r'] then .wordOr
  else if word = ['a', 'n', 'd'] then .wordAnd
  else if word = ['n', 'o', 't'] then .wordNot
  else if word = ['t', 'r', 'u', 'e'] then .wordTrue
  else if word = ['f', 'a', 'l', 's', 'e'] then .wordFalse
  else .identifier

def digitsExtent (cs : List Char) : Nat := (cs.takeWhile Char.isDigit).length

def fractionExtent : List Char → Nat
  | '.' :: cs => if digitsExtent cs = 0 then 0 else 1 + digitsExtent cs
  | _ => 0

def signExtent : List Char → Nat
  | '+' :: _ => 1
  | '-' :: _ => 1
  | _ => 0

def exponentExtent : List Char → Nat
  | c :: cs =>
    let sign := signExtent cs
    let digits := digitsExtent (cs.drop sign)
    if (c = 'e' ∨ c = 'E') ∧ digits ≠ 0 then 1 + sign + digits else 0
  | [] => 0

def numberExtent (cs : List Char) : Nat :=
  let whole := digitsExtent cs
  let fraction := fractionExtent (cs.drop whole)
  whole + fraction + exponentExtent (cs.drop (whole + fraction))

def stringExtent (cs : List Char) : Option Nat :=
  if cs.contains '"' then some ((cs.takeWhile (· ≠ '"')).length + 1) else none

def wordExtent (cs : List Char) : Nat := (cs.takeWhile Char.isAlphanum).length

def orEqual (withEqual without : Kind) : List Char → Kind × Nat
  | '=' :: _ => (withEqual, 1)
  | _ => (without, 0)

def onlyEqual (kind : Kind) : List Char → Except Stuck (Kind × Nat)
  | '=' :: _ => .ok (kind, 1)
  | _ => .error .unknownCharacter

/-- The kind of the longest lexeme at the front of `c :: rest`, and how many characters of `rest`
belong to it. -/
def extent (c : Char) (rest : List Char) : Except Stuck (Kind × Nat) :=
  match single? c with
  | some kind => .ok (kind, 0)
  | none =>
    if c = '>' then .ok (orEqual .greaterEqual .greater rest)
    else if c = '<' then .ok (orEqual .lessEqual .less rest)
    else if c = '=' then onlyEqual .equalEqual rest
    else if c = '!' then onlyEqual .bangEqual rest
    else if c = '"' then
      match stringExtent rest with
      | some n => .ok (.string, n)
      | none => .error .unterminatedString
    else if c.isDigit then .ok (.number, numberExtent rest)
    else if c.isAlpha then
      let n := wordExtent rest
      .ok (wordKind (c :: rest.take n), n)
    else .error .unknownCharacter

end Formulae.Lexeme
