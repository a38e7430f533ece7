import Formulae.Evaluation

namespace Formulae

namespace Expr

mutual

/-- The levels below its own that an expression is evaluated on. -/
def levels : Expr → Nat
  | .unary _ operand _ => operand.levels + 1
  | .binary (.arithmetic .power) left right _ =>
    max (levelsAll (left :: right.powerRun.1.map Prod.fst)) (right.powerRun.2.levels + 1)
  | .binary op left right l =>
    max ((left.leftRun [(op, right, l)]).1.levels + 1)
      (levelsAround (left.leftRun [(op, right, l)]).2)
  | .conditional test accept reject _ =>
    max test.levels (max accept.levels reject.levels) + 1
  | .call _ args _ => levelsAll args
  | _ => 0
termination_by e => e.size
decreasing_by
  all_goals simp only [size, sizeAll]
  · omega
  · have := size_powerRun right; omega
  · have := size_powerRun right; omega
  · have := size_leftRun [(op, right, l)] left; simp only [sizeAround] at this; omega
  · have := size_leftRun [(op, right, l)] left; simp only [sizeAround] at this; omega
  all_goals omega

def levelsAll : List Expr → Nat
  | [] => 0
  | e :: es => max (e.levels + 1) (levelsAll es)
termination_by es => sizeAll es
decreasing_by all_goals simp only [sizeAll]; omega

def levelsAround : List (BinaryOp × Expr × Location) → Nat
  | [] => 0
  | (_, right, _) :: around => max (right.levels + 1) (levelsAround around)
termination_by around => sizeAround around
decreasing_by all_goals simp only [sizeAround]; omega

end

theorem levels_binary (hop : op ≠ .arithmetic .power) (left right : Expr) (l : Location) :
    (binary op left right l).levels =
      max ((left.leftRun [(op, right, l)]).1.levels + 1)
        (levelsAround (left.leftRun [(op, right, l)]).2) := by
  rw [levels]
  exact hop

mutual

/-- The height of an expression as a tree; the callee of a call is a leaf. -/
def height : Expr → Nat
  | .unary _ operand _ => operand.height + 1
  | .binary _ left right _ => max left.height right.height + 1
  | .conditional test accept reject _ =>
    max test.height (max accept.height reject.height) + 1
  | .call _ args _ => heightAll args + 1
  | _ => 0

def heightAll : List Expr → Nat
  | [] => 0
  | e :: es => max e.height (heightAll es)

end

section

variable {P : Expr → Prop} {Around : List (BinaryOp × Expr × Location) → Prop}
  {All : List Expr → Prop}

/-- Induction along the runs that the evaluator takes: over an expression, the operations around the
innermost operand of a run, and the operands of a node. -/
theorem runs_induction (number : ∀ text l, P (number text l)) (string : ∀ text l, P (string text l))
    (boolean : ∀ b l, P (boolean b l)) (identifier : ∀ name l, P (identifier name l))
    (extension : ∀ name l, P (extension name l))
    (unary : ∀ op operand l, P operand → P (unary op operand l))
    (power : ∀ left right l, All (left :: right.powerRun.1.map Prod.fst) → P right.powerRun.2 →
      P (binary (.arithmetic .power) left right l))
    (binary : ∀ op left right l, op ≠ .arithmetic .power → P (left.leftRun [(op, right, l)]).1 →
      Around (left.leftRun [(op, right, l)]).2 → P (binary op left right l))
    (conditional : ∀ test accept reject l, P test → P accept → P reject →
      P (conditional test accept reject l))
    (call : ∀ callee args l, All args → P (call callee args l))
    (around_nil : Around [])
    (around_cons : ∀ op right l around, P right → Around around → Around ((op, right, l) :: around))
    (all_nil : All []) (all_cons : ∀ e es, P e → All es → All (e :: es)) :
    (∀ e, P e) ∧ (∀ around, Around around) ∧ ∀ es, All es := by
  apply levels.mutual_induct
  case case1 => exact unary
  case case2 => exact power
  case case3 => exact binary
  case case4 => exact conditional
  case case5 => exact call
  case case6 =>
    intro e hu _ hb hc ha
    cases e with
    | number => exact number _ _
    | string => exact string _ _
    | boolean => exact boolean _ _
    | identifier => exact identifier _ _
    | extension => exact extension _ _
    | unary => exact (hu _ _ _ rfl).elim
    | binary => exact (hb _ _ _ _ rfl).elim
    | conditional => exact (hc _ _ _ _ rfl).elim
    | call => exact (ha _ _ _ rfl).elim
  case case7 => exact around_nil
  case case8 => exact around_cons
  case case9 => exact all_nil
  case case10 => exact all_cons

end

end Expr

end Formulae
