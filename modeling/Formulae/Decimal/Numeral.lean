import Formulae.Decimal.Shortest
import Formulae.Double.Arithmetic

namespace Formulae

namespace Decimal

/-- The double nearest to a decimal. Beyond these exponents it is infinite or zero, whatever the
coefficient, and no large power has to be taken. -/
def toFloat (negative : Bool) (d : Decimal) : Float :=
  if d.coefficient = 0 then Double.zero negative
  else if 400 < d.exponent then Double.infinity negative
  else if d.exponent < -(400 + d.coefficient.log2 : Nat) then Double.zero negative
  else
    Double.nearest negative (d.coefficient * Nat.pow 10 d.exponent.toNat)
      (Nat.pow 10 (-d.exponent).toNat)

/-- Which powers of ten of the leading digit are written without an exponent, and how many digits an
exponent has at least. -/
structure Layout where
  leastPlain : Int
  greatestPlain : Int
  exponentWidth : Nat

def layout : Layout := ⟨-4, 15, 2⟩

def padLeft (width : Nat) (digits : List Char) : List Char :=
  List.replicate (width - digits.length) '0' ++ digits

def scientific (digits : List Char) (power : Int) : List Char :=
  let fraction := digits.drop 1
  digits.take 1 ++ (if fraction = [] then [] else '.' :: fraction) ++
    'e' :: (if power < 0 then '-' else '+') ::
    padLeft layout.exponentWidth (Nat.toDigits 10 power.natAbs)

def plain (digits : List Char) (point : Int) : List Char :=
  if point ≤ 0 then '0' :: '.' :: List.replicate (-point).toNat '0' ++ digits
  else if digits.length ≤ point.toNat then
    digits ++ List.replicate (point.toNat - digits.length) '0'
  else digits.take point.toNat ++ '.' :: digits.drop point.toNat

def write (d : Decimal) : List Char :=
  let digits := Nat.toDigits 10 d.coefficient
  let power := d.exponent + digits.length - 1
  if layout.leastPlain ≤ power ∧ power ≤ layout.greatestPlain then plain digits (power + 1)
  else scientific digits power

end Decimal

inductive Numeral
  | nan
  | infinity
  | decimal (value : Decimal)
  deriving DecidableEq, Repr

namespace Numeral

def toFloat (negative : Bool) : Numeral → Float
  | .nan => Double.nan
  | .infinity => Double.infinity negative
  | .decimal d => d.toFloat negative

def splitSign : List Char → Bool × List Char
  | '-' :: cs => (true, cs)
  | '+' :: cs => (false, cs)
  | cs => (false, cs)

def readExponent : List Char → Option Int
  | [] => some 0
  | c :: cs =>
    let (negative, digits) := splitSign cs
    if (c = 'e' ∨ c = 'E') ∧ digits ≠ [] ∧ digits.all Char.isDigit then
      let n : Int := Nat.ofDigitChars 10 digits 0
      some (if negative then -n else n)
    else none

def splitFraction : List Char → List Char × List Char
  | '.' :: cs => (cs.takeWhile Char.isDigit, cs.dropWhile Char.isDigit)
  | cs => ([], cs)

def readDecimal (cs : List Char) : Option Decimal :=
  let (fraction, rest) := splitFraction (cs.dropWhile Char.isDigit)
  let digits := cs.takeWhile Char.isDigit ++ fraction
  if digits = [] then none
  else (readExponent rest).map fun e => ⟨Nat.ofDigitChars 10 digits 0, e - fraction.length⟩

def readUnsigned (cs : List Char) : Option Numeral :=
  let name := String.ofList (cs.map Char.toLower)
  if name = "inf" ∨ name = "infinity" then some .infinity
  else if name = "nan" then some .nan
  else (readDecimal cs).map .decimal

def read (text : String) : Option Float :=
  let (negative, cs) := splitSign text.toList
  (readUnsigned cs).map (toFloat negative)

def writeFraction (m k : Nat) : String :=
  match Decimal.shortest m k with
  | some d => String.ofList d.trim.write
  | none => ""

def write (x : Float) : String :=
  match Double.view x with
  | .nan => "nan"
  | .infinity negative => if negative then "-inf" else "inf"
  | .finite negative m k =>
    match Double.toInt? x with
    | some n => toString n
    | none => (if negative then "-" else "") ++ writeFraction m k

end Numeral

end Formulae
