import Formulae.Evaluation
import Formulae.Proofs.Sequences

namespace Formulae

theorem Eval.raise_cons (base : Value) (l : Location) (bases : List (Value × Location))
    (exponent : Value) :
    Eval.raise ((base, l) :: bases) exponent =
      (do let v ← Eval.raise bases exponent
          Eval.ofExcept l (Value.applyArithmetic .power base v)) := by
  simp only [Eval.raise, List.foldrM_cons]

namespace Expr

mutual

def plain (context : Context) : Expr → Eval Value
  | .number text l => Eval.ofExcept l (Value.ofNumeral text)
  | .string text _ => pure (.string text)
  | .boolean b _ => pure (.boolean b)
  | .identifier name l => Eval.locating l (Eval.request context (.resolve name))
  | .unary op operand l => do
    let v ← operand.plain context
    Eval.ofExcept l (Value.applyUnary op v)
  | .binary op left right l => do
    let x ← left.plain context
    let y ← right.plain context
    Eval.ofExcept l (Value.applyBinary op x y)
  | .conditional test accept reject l => do
    let t ← test.plain context
    let a ← accept.plain context
    let r ← reject.plain context
    Eval.ofExcept l (Value.choose t a r)
  | .call (.identifier name _) args l => do
    let vs ← plainAll context args
    Eval.reportingCall name l (Eval.request context (.invoke name vs))
  | .call callee _ l => Eval.ofExcept l (.error (.notCallable callee.describe))
  | .extension name l => Eval.ofExcept l (.error (.unknownNode name))

def plainAll (context : Context) : List Expr → Eval (List Value)
  | [] => pure []
  | e :: es => do
    let v ← e.plain context
    let vs ← plainAll context es
    pure (v :: vs)

end

def plainAround (context : Context) (left : Value) :
    List (BinaryOp × Expr × Location) → Eval Value
  | [] => pure left
  | (op, right, l) :: around => do
    let v ← right.plain context
    let left ← Eval.ofExcept l (Value.applyBinary op left v)
    plainAround context left around

variable (context : Context)

theorem plain_leftRun (around : List (BinaryOp × Expr × Location)) (e : Expr) :
    (do let v ← (e.leftRun around).1.plain context
        plainAround context v (e.leftRun around).2) =
      (do let v ← e.plain context
          plainAround context v around) := by
  fun_induction leftRun around e with
  | case1 around op left right l ih => simp only [ih, plainAround, plain, bind_assoc]
  | case2 around e _ => rfl

theorem plain_binary (op : BinaryOp) (left right : Expr) (l : Location) :
    (binary op left right l).plain context =
      (do let v ← (left.leftRun [(op, right, l)]).1.plain context
          plainAround context v (left.leftRun [(op, right, l)]).2) := by
  rw [plain_leftRun]
  simp only [plainAround, plain, bind_pure]

theorem plain_powerRun (e : Expr) :
    e.plain context = (do
      let bases ← plainAll context (e.powerRun.1.map Prod.fst)
      let exponent ← e.powerRun.2.plain context
      Eval.raise (bases.zip (e.powerRun.1.map Prod.snd)) exponent) := by
  fun_induction powerRun e with
  | case1 left right l bases exponent h ih =>
    simp only [plain, ih, h, List.map_cons, plainAll, bind_assoc, pure_bind, List.zip_cons_cons,
      Eval.raise_cons]
    rfl
  | case2 e _ => simp [plainAll, Eval.raise]

end Expr

end Formulae
