import Formulae.Proofs.Evaluation.Levels
import Formulae.Proofs.Evaluation.Plain

namespace Formulae

namespace Expr

variable {context : Context} {limit : Int}

theorem evalAt_eq_plain_of_levels :
    (∀ (e : Expr) (depth : Nat), (depth + e.levels : Nat) ≤ limit →
      e.evalAt context limit depth = e.plain context) ∧
    (∀ (around : List (BinaryOp × Expr × Location)) (depth : Nat) (v : Value),
      (depth + levelsAround around : Nat) ≤ limit →
        evalAroundAt context limit (depth + 1) v around = plainAround context v around) ∧
    (∀ (es : List Expr) (depth : Nat), (depth + levelsAll es : Nat) ≤ limit →
      evalAllAt context limit (depth + 1) es = plainAll context es) := by
  apply runs_induction
  case unary =>
    intro op operand l ih depth h
    simp only [levels] at h
    rw [evalAt, if_neg (by omega), ih (depth + 1) (by omega)]
    rfl
  case power =>
    intro left right l ihb ihe depth h
    simp only [levels] at h
    rw [evalAt, if_neg (by omega), plain_powerRun, powerRun]
    simp only [List.map_cons]
    rw [ihb depth (by omega), ihe (depth + 1) (by omega)]
  case binary =>
    intro op left right l hop ihf iha depth h
    rw [levels_binary hop] at h
    rw [evalAt, if_neg (by omega)]
    · dsimp only
      rw [ihf (depth + 1) (by omega), plain_binary]
      exact bind_congr fun v => iha depth v (by omega)
    · exact hop
  case conditional =>
    intro test accept reject l iht iha ihr depth h
    simp only [levels] at h
    rw [evalAt, if_neg (by omega), iht (depth + 1) (by omega), iha (depth + 1) (by omega),
      ihr (depth + 1) (by omega)]
    rfl
  case call =>
    intro callee args l ih depth h
    simp only [levels] at h
    cases callee with
    | identifier name l => rw [evalAt, if_neg (by omega), ih depth h]; rfl
    | _ => rw [evalAt, if_neg (by omega)] <;> simp [plain]
  case number | string | boolean | identifier | extension =>
    intro _ _ depth h
    rw [evalAt, if_neg (by omega)]
    rfl
  case around_nil => intro depth v _; rw [evalAroundAt]; rfl
  case around_cons =>
    intro op right l around ih iha depth v h
    simp only [levelsAround] at h
    rw [evalAroundAt, ih (depth + 1) (by omega), plainAround]
    refine bind_congr fun y => bind_congr fun v => iha depth v (by omega)
  case all_nil => intro depth _; rw [evalAllAt]; rfl
  case all_cons =>
    intro e es ih ihs depth h
    simp only [levelsAll] at h
    rw [evalAllAt, ih (depth + 1) (by omega), ihs depth (by omega)]
    rfl

end Expr

end Formulae
