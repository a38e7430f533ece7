/-!
Doubles as exact numbers. `view` reads a double as a sign, a significand and a power of two;
`nearest` is the double closest to a quotient of two natural numbers, a tie going to the even
significand. The magnitudes of the doubles that are no NaN are numbered in order from 0 (zero) to
`infinityIndex` (infinity), and this number is the bit pattern without its sign.
-/

namespace Formulae.Double

/-- What a double stands for: `finite s m k` is `m · 2 ^ k / 2 ^ 1074`, negated if `s`. -/
inductive View
  | nan
  | infinity (negative : Bool)
  | finite (negative : Bool) (significand shift : Nat)
  deriving DecidableEq, Repr

def infinityIndex : Nat := 2047 * Nat.pow 2 52

def significandOf (index : Nat) : Nat :=
  if index < Nat.pow 2 52 then index else Nat.pow 2 52 + index % Nat.pow 2 52

def shiftOf (index : Nat) : Nat := index / Nat.pow 2 52 - 1

def ofIndex (negative : Bool) (index : Nat) : Float :=
  Float.ofBits (UInt64.ofNat (index + if negative then Nat.pow 2 63 else 0))

def view (x : Float) : View :=
  let bits := x.toBits.toNat
  let negative := decide (Nat.pow 2 63 ≤ bits)
  let index := bits % Nat.pow 2 63
  if infinityIndex < index then .nan
  else if index = infinityIndex then .infinity negative
  else .finite negative (significandOf index) (shiftOf index)

def isNegative (x : Float) : Bool := decide (Nat.pow 2 63 ≤ x.toBits.toNat)

def roundHalfEven (num den : Nat) : Nat :=
  let q := num / den
  let r := num % den
  if 2 * r < den then q else if den < 2 * r then q + 1 else q + q % 2

def shiftFor (num den : Nat) : Nat := (num * Nat.pow 2 1074 / den).log2 - 52

/-- The number of the magnitude nearest to `num / den`. A significand that rounds up to `2 ^ 53`
carries into the next shift, and all that is too large is infinity. -/
def nearestIndex (num den : Nat) : Nat :=
  let k := shiftFor num den
  min infinityIndex
    (k * Nat.pow 2 52 + roundHalfEven (num * Nat.pow 2 1074) (den * Nat.pow 2 k))

def nearest (negative : Bool) (num den : Nat) : Float := ofIndex negative (nearestIndex num den)

def ofInt? (n : Int) : Option Float :=
  let index := nearestIndex n.natAbs 1
  if index = infinityIndex then none else some (ofIndex (decide (n < 0)) index)

def toInt? (x : Float) : Option Int :=
  match view x with
  | .finite negative m k =>
    if m * Nat.pow 2 k % Nat.pow 2 1074 = 0 then
      let n : Int := (m * Nat.pow 2 k / Nat.pow 2 1074 : Nat)
      some (if negative then -n else n)
    else none
  | _ => none

end Formulae.Double
