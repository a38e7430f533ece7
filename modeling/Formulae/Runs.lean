import Formulae.Expr

namespace Formulae

namespace Expr

/-- The innermost left operand of a run of binary operations, and what is around it from the inside
out: each operator with its right operand, before those that are there already. -/
def leftRun (around : List (BinaryOp × Expr × Location)) :
    Expr → Expr × List (BinaryOp × Expr × Location)
  | .binary op left right l => left.leftRun ((op, right, l) :: around)
  | e => (e, around)

/-- The bases of a run of powers, from the outside in, and its innermost exponent. -/
def powerRun : Expr → List (Expr × Location) × Expr
  | .binary (.arithmetic .power) left right l =>
    let (bases, exponent) := right.powerRun
    ((left, l) :: bases, exponent)
  | e => ([], e)

mutual

def size : Expr → Nat
  | .unary _ operand _ => operand.size + 1
  | .binary _ left right _ => left.size + right.size + 2
  | .conditional test accept reject _ => test.size + accept.size + reject.size + 1
  | .call _ arguments _ => sizeAll arguments + 1
  | _ => 0

def sizeAll : List Expr → Nat
  | [] => 0
  | e :: es => e.size + sizeAll es + 1

end

def sizeAround : List (BinaryOp × Expr × Location) → Nat
  | [] => 0
  | (_, right, _) :: around => right.size + sizeAround around + 1

theorem size_leftRun (around : List (BinaryOp × Expr × Location)) (e : Expr) :
    (e.leftRun around).1.size + sizeAround (e.leftRun around).2 ≤ e.size + sizeAround around := by
  fun_induction leftRun around e with
  | case1 around op left right l ih => simp only [size, sizeAround] at ih ⊢; omega
  | case2 => exact Nat.le_refl _

theorem size_powerRun (e : Expr) :
    sizeAll (e.powerRun.1.map Prod.fst) + e.powerRun.2.size ≤ e.size := by
  fun_induction powerRun e with
  | case1 left right l bases exponent h ih =>
    simp only [h, size, sizeAll, List.map_cons] at ih ⊢
    omega
  | case2 e _ => simp [sizeAll]

end Expr

end Formulae
