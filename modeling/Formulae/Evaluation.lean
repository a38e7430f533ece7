import Formulae.Context
import Formulae.EvalError
import Formulae.Runs

/-!
Evaluation of expressions. All operands are evaluated, from left to right, before an operation looks
at their values; there is no short cut. The depth of a node counts the operations around it, but a
run of binary operations that lean to the left counts once, and so does a run of powers that lean to
the right.
-/

namespace Formulae

namespace ArithmeticOp

def apply : ArithmeticOp → Float → Float → Float
  | .add, a, b => a + b
  | .subtract, a, b => a - b
  | .multiply, a, b => a * b
  | .divide, a, b => Double.divide a b
  | .remainder, a, b => Double.remainder a b
  | .power, a, b => Double.power (Double.checkedPower Float.pow) a b

end ArithmeticOp

namespace ComparisonOp

def holds : ComparisonOp → Option Ordering → Bool
  | .equal, o => o = some .eq
  | .notEqual, o => o ≠ some .eq
  | .less, o => o = some .lt
  | .lessEqual, o => o = some .lt || o = some .eq
  | .greater, o => o = some .gt
  | .greaterEqual, o => o = some .gt || o = some .eq

end ComparisonOp

namespace LogicOp

def apply : LogicOp → Bool → Bool → Bool
  | .and, a, b => a && b
  | .or, a, b => a || b

end LogicOp

namespace Value

def compareFloats (x y : Float) : Option Ordering :=
  if x < y then some .lt
  else if x == y then some .eq
  else if y < x then some .gt
  else none

def applyArithmetic (op : ArithmeticOp) : Value → Value → Except EvalError Value
  | .number x, .number y => .ok (.number (op.apply x y))
  | .string s, .string t =>
    if op = .add then .ok (.string (s ++ t))
    else .error (.invalidOperands op (.string s) (.string t))
  | left, right => .error (.invalidOperands op left right)

def applyComparison (op : ComparisonOp) : Value → Value → Except EvalError Value
  | .number x, .number y => .ok (.boolean (op.holds (compareFloats x y)))
  | .string s, .string t => .ok (.boolean (op.holds (some (compare s t))))
  | .boolean a, .boolean b => .ok (.boolean (op.holds (some (compare a b))))
  | left, right => .error (.kindMismatch left right)

def applyLogic (op : LogicOp) : Value → Value → Except EvalError Value
  | .boolean a, .boolean b => .ok (.boolean (op.apply a b))
  | left, right => .error (.booleansExpected op left right)

def applyBinary : BinaryOp → Value → Value → Except EvalError Value
  | .arithmetic op => applyArithmetic op
  | .comparison op => applyComparison op
  | .logic op => applyLogic op

def ofNumeral (text : String) : Except EvalError Value :=
  match Numeral.read text with
  | some x => .ok (.number x)
  | none => .error (.invalidNumber text)

def applyUnary : UnaryOp → Value → Except EvalError Value
  | .not, .boolean b => .ok (.boolean !b)
  | .not, v => .error (.booleanExpected v)
  | .minus, .number x => .ok (.number (-x))
  | .minus, v => .error (.numberExpected v)
  | .plus, .number x => .ok (.number x)
  | .plus, .boolean b => .ok (.number (if b then 1 else 0))
  | .plus, .string s => ofNumeral s

/-- The test is checked before the branches are. -/
def choose (test accept reject : Value) : Except EvalError Value :=
  match test with
  | .boolean b =>
    if accept.kind = reject.kind then .ok (if b then accept else reject)
    else .error (.branchMismatch accept reject)
  | _ => .error (.testExpected test)

end Value

/-- Computations that make requests, which they keep, latest first. -/
abbrev Eval := EStateM Fault (List Request)

namespace Eval

def ofExcept (location : Location) : Except EvalError α → Eval α
  | .ok a => pure a
  | .error e => throw (.diagnostic (e.toDiagnostic location))

def request (context : Context) (r : Request) : Eval Value := do
  let earlier ← get
  set (r :: earlier)
  match context.answer earlier r with
  | .ok v => pure v
  | .error fault => throw fault

def raise (bases : List (Value × Location)) (exponent : Value) : Eval Value :=
  bases.foldrM (fun (base, l) v => ofExcept l (Value.applyArithmetic .power base v)) exponent

def locating (location : Location) (x : Eval α) : Eval α :=
  tryCatch x fun fault => throw (fault.locate location)

def reportingCall (name : String) (location : Location) (x : Eval α) : Eval α :=
  tryCatch x fun fault =>
    match fault with
    | .host e => throw (.diagnostic ((EvalError.raisedByFunction name e).toDiagnostic location))
    | .diagnostic d => throw (.diagnostic (d.locate location))

end Eval

namespace Expr

mutual

def evalAt (context : Context) (limit : Int) (depth : Nat) (e : Expr) : Eval Value := do
  if limit < depth then
    throw (.diagnostic ((EvalError.tooDeep limit).toDiagnostic e.location))
  match e with
  | .number text l => Eval.ofExcept l (Value.ofNumeral text)
  | .string text _ => pure (.string text)
  | .boolean b _ => pure (.boolean b)
  | .identifier name l => Eval.locating l (Eval.request context (.resolve name))
  | .unary op operand l =>
    let v ← operand.evalAt context limit (depth + 1)
    Eval.ofExcept l (Value.applyUnary op v)
  | .binary (.arithmetic .power) left right l =>
    let run := right.powerRun
    let bases ← evalAllAt context limit (depth + 1) (left :: run.1.map Prod.fst)
    let exponent ← run.2.evalAt context limit (depth + 1)
    Eval.raise (bases.zip (l :: run.1.map Prod.snd)) exponent
  | .binary op left right l =>
    let run := left.leftRun [(op, right, l)]
    let v ← run.1.evalAt context limit (depth + 1)
    evalAroundAt context limit (depth + 1) v run.2
  | .conditional test accept reject l =>
    let t ← test.evalAt context limit (depth + 1)
    let a ← accept.evalAt context limit (depth + 1)
    let r ← reject.evalAt context limit (depth + 1)
    Eval.ofExcept l (Value.choose t a r)
  | .call (.identifier name _) args l =>
    let vs ← evalAllAt context limit (depth + 1) args
    Eval.reportingCall name l (Eval.request context (.invoke name vs))
  | .call callee _ l => Eval.ofExcept l (.error (.notCallable callee.describe))
  | .extension name l => Eval.ofExcept l (.error (.unknownNode name))
termination_by e.size
decreasing_by
  all_goals simp only [size, sizeAll]
  · omega
  · have := size_powerRun right; omega
  · have := size_powerRun right; omega
  · have := size_leftRun [(op, right, l)] left; simp only [sizeAround] at this; omega
  · have := size_leftRun [(op, right, l)] left; simp only [sizeAround] at this; omega
  all_goals omega

def evalAllAt (context : Context) (limit : Int) (depth : Nat) : List Expr → Eval (List Value)
  | [] => pure []
  | e :: es => do
    let v ← e.evalAt context limit depth
    let vs ← evalAllAt context limit depth es
    pure (v :: vs)
termination_by es => sizeAll es
decreasing_by all_goals simp only [sizeAll]; omega

def evalAroundAt (context : Context) (limit : Int) (depth : Nat) (left : Value) :
    List (BinaryOp × Expr × Location) → Eval Value
  | [] => pure left
  | (op, right, l) :: around => do
    let v ← right.evalAt context limit depth
    let left ← Eval.ofExcept l (Value.applyBinary op left v)
    evalAroundAt context limit depth left around
termination_by around => sizeAround around
decreasing_by all_goals simp only [sizeAround]; omega

end

/-- An error of the host that no call has reported is reported at the root. -/
def report (e : Expr) : Fault → Diagnostic
  | .diagnostic d => d
  | .host error => (EvalError.raised error).toDiagnostic e.location

def conclude (e : Expr) (x : Eval Value) : Except Diagnostic Value × List Request :=
  match x [] with
  | .ok v requests => (.ok v, requests.reverse)
  | .error fault requests => (.error (e.report fault), requests.reverse)

def evaluate (context : Context) (limit : Int) (e : Expr) :
    Except Diagnostic Value × List Request :=
  e.conclude (e.evalAt context limit 0)

end Expr

end Formulae
