import Formulae.Double

namespace Formulae.Double

def nan : Float := Float.ofBits 0x7ff8000000000000

def infinity (negative : Bool) : Float := ofIndex negative infinityIndex

def zero (negative : Bool) : Float := ofIndex negative 0

def isNan (x : Float) : Bool := view x = .nan

def isInfinite (x : Float) : Bool :=
  match view x with
  | .infinity _ => true
  | _ => false

/-- A host does not divide by zero, so what IEEE 754 says of that is answered here. -/
def divide (a b : Float) : Float :=
  if b == 0 then
    if a == 0 || isNan a then nan else infinity (isNegative a ^^ isNegative b)
  else a / b

/-- The remainder of a host: that of division with the quotient cut off towards zero. There is none of
an infinity and none by zero, unless an operand is NaN. The remainder of two doubles is a double, so
nothing is rounded; it has the sign of `a`, also when it is zero. -/
def checkedRemainder (a b : Float) : Option Float :=
  match view a, view b with
  | .nan, _ => some nan
  | _, .nan => some nan
  | .infinity _, _ => none
  | .finite .., .infinity _ => some a
  | .finite negative m k, .finite _ m' k' =>
    if m' = 0 then none
    else
      let e := min k k'
      some (nearest negative
        (m * Nat.pow 2 (k - e) % (m' * Nat.pow 2 (k' - e)) * Nat.pow 2 e) (Nat.pow 2 1074))

theorem eq_of_toBits {x y : Float} (h : x.toBits = y.toBits) : x = y := by
  obtain ⟨⟨bits, hx⟩⟩ := x
  obtain ⟨⟨bits', hy⟩⟩ := y
  cases (h : bits = bits')
  rfl

theorem eq_zero_of_view (h : view x = .finite negative 0 k) : x = zero false ∨ x = zero true := by
  have hx : x.toBits.toNat < 2 ^ 64 := x.toBits.toNat_lt
  have hindex : x.toBits.toNat % 2 ^ 63 = 0 := by
    unfold view significandOf at h
    simp only [infinityIndex, Nat.pow_eq] at h
    split at h
    next => cases h
    next =>
      split at h
      next => cases h
      next =>
        have hs := (View.finite.inj h).2.1
        split at hs <;> omega
  have hpositive : (zero false).toBits.toNat = 0 := by decide +kernel
  have hnegative : (zero true).toBits.toNat = 2 ^ 63 := by decide +kernel
  refine Or.imp (fun h => ?_) (fun h => ?_) (by omega : x.toBits.toNat = 0 ∨ x.toBits.toNat = 2 ^ 63)
  · exact eq_of_toBits (UInt64.toNat_inj.1 (h.trans hpositive.symm))
  · exact eq_of_toBits (UInt64.toNat_inj.1 (h.trans hnegative.symm))

theorem beq_zero_of_view (h : view x = .finite negative 0 k) : (x == 0) = true := by
  rcases eq_zero_of_view h with rfl | rfl <;> decide +kernel

theorem isSome_checkedRemainder (h : (b == 0 || isInfinite a || isNan a || isNan b) = false) :
    (checkedRemainder a b).isSome := by
  simp only [Bool.or_eq_false_iff] at h
  obtain ⟨⟨⟨hzero, hinfinite⟩, -⟩, -⟩ := h
  unfold checkedRemainder
  cases ha : view a with
  | nan => rfl
  | infinity =>
    rw [isInfinite, ha] at hinfinite
    cases hinfinite
  | finite =>
    cases hb : view b with
    | nan => rfl
    | infinity => rfl
    | finite _ m' _ =>
      have hm : m' ≠ 0 := by
        rintro rfl
        rw [beq_zero_of_view hb] at hzero
        cases hzero
      simp only [if_neg hm]
      rfl

def remainder (a b : Float) : Float :=
  if h : b == 0 || isInfinite a || isNan a || isNan b then nan
  else (checkedRemainder a b).get (isSome_checkedRemainder (eq_false_of_ne_true h))

def isOddInteger (x : Float) : Bool :=
  match toInt? x with
  | some n => n % 2 = 1
  | none => false

inductive PowerFailure
  | overflow
  | domain
  deriving DecidableEq, Repr

/-- The powers of a host that has no number for what is too large, for zero to a negative power and
for a negative base with an exponent that is no integer. -/
def checkedPower (pow : Float → Float → Float) (a b : Float) : Except PowerFailure Float :=
  match view a, view b with
  | .finite negative m _, .finite .. =>
    if m = 0 then if b < 0 then .error .domain else .ok (pow a b)
    else if negative && (toInt? b).isNone then .error .domain
    else
      match view (pow a b) with
      | .infinity _ => .error .overflow
      | _ => .ok (pow a b)
  | _, _ => .ok (pow a b)

/-- The power where a host has no number for it. What is too large is infinite, with the sign that an
exact result would have; an odd integer as exponent keeps the sign of zero; other than these nothing
is left but NaN. -/
def recoverPower (a b : Float) : PowerFailure → Float
  | .overflow => infinity (a < 0 && isOddInteger b)
  | .domain => if a == 0 then infinity (isNegative a && isOddInteger b) else nan

def power (host : Float → Float → Except PowerFailure Float) (a b : Float) : Float :=
  match host a b with
  | .ok r => r
  | .error failure => recoverPower a b failure

end Formulae.Double
