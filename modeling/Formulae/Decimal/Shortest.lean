import Formulae.Double

/-!
The shortest decimal that reads back as a given double. All reals between the two midpoints to the
neighbouring doubles read back (the midpoints themselves iff the significand is even). Of the grids
of the multiples of a power of ten the coarsest that has a point in this interval is taken, and on
it the point nearest to the double, of two equally near ones the even one.
-/

namespace Formulae

structure Decimal where
  coefficient : Nat
  exponent : Int
  deriving DecidableEq, Repr

namespace Decimal

/-- The reals that round to `value`, over a common denominator; its ends belong to it iff it is
`closed`. -/
structure Interval where
  low : Nat
  value : Nat
  high : Nat
  closed : Bool

def Interval.denominator : Nat := Nat.pow 2 1076

/-- The interval of the double `m · 2 ^ k / 2 ^ 1074`. Below a power of two the next double is only
half as far away. -/
def Interval.ofFinite (m k : Nat) : Interval where
  low :=
    if m = Nat.pow 2 52 ∧ 0 < k then (4 * m - 1) * Nat.pow 2 k else (4 * m - 2) * Nat.pow 2 k
  value := 4 * m * Nat.pow 2 k
  high := (4 * m + 2) * Nat.pow 2 k
  closed := m % 2 = 0

def Interval.contains (i : Interval) (scale n : Nat) : Bool :=
  if i.closed then i.low * scale ≤ n && n ≤ i.high * scale
  else i.low * scale < n && n < i.high * scale

def Interval.onGrid (i : Interval) (exponent : Int) : Option Nat :=
  let unit := Nat.pow 10 exponent.toNat * denominator
  let scale := Nat.pow 10 (-exponent).toNat
  let below := i.value * scale / unit
  let rest := i.value * scale % unit
  match i.contains scale (below * unit), i.contains scale ((below + 1) * unit) with
  | true, true =>
    if 2 * rest < unit then some below
    else if unit < 2 * rest then some (below + 1)
    else some (below + below % 2)
  | true, false => some below
  | false, true => some (below + 1)
  | false, false => none

def Interval.coarsest (i : Interval) (exponent : Int) : Nat → Option Decimal
  | 0 => none
  | steps + 1 =>
    match i.onGrid exponent with
    | some n => some ⟨n, exponent⟩
    | none => i.coarsest (exponent - 1) steps

def exponentAbove (m k : Nat) : Int :=
  let bits : Int := (m.log2 + k : Nat) - 1074
  Int.fdiv (bits * 1233) 4096 + 2

/-- Twenty grids are enough, for the last of them has seventeen digits or more. -/
def shortest (m k : Nat) : Option Decimal :=
  (Interval.ofFinite m k).coarsest (exponentAbove m k) 20

def trim (d : Decimal) : Decimal :=
  if h : d.coefficient ≠ 0 ∧ d.coefficient % 10 = 0 then
    trim ⟨d.coefficient / 10, d.exponent + 1⟩
  else d
termination_by d.coefficient
decreasing_by exact Nat.div_lt_self (Nat.pos_of_ne_zero h.1) (by decide)

end Decimal

end Formulae
