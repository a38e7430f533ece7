import Formulae.Location

namespace Formulae

inductive ArithmeticOp
  | add | subtract | multiply | divide | remainder | power
  deriving DecidableEq, Repr

inductive ComparisonOp
  | equal | notEqual | less | lessEqual | greater | greaterEqual
  deriving DecidableEq, Repr

inductive LogicOp
  | and | or
  deriving DecidableEq, Repr

inductive UnaryOp
  | plus | minus | not
  deriving DecidableEq, Repr

inductive BinaryOp
  | arithmetic (op : ArithmeticOp)
  | comparison (op : ComparisonOp)
  | logic (op : LogicOp)
  deriving DecidableEq, Repr

def ArithmeticOp.symbol : ArithmeticOp → String
  | .add => "+"
  | .subtract => "-"
  | .multiply => "*"
  | .divide => "/"
  | .remainder => "%"
  | .power => "^"

def ComparisonOp.symbol : ComparisonOp → String
  | .equal => "=="
  | .notEqual => "!="
  | .less => "<"
  | .lessEqual => "<="
  | .greater => ">"
  | .greaterEqual => ">="

def LogicOp.symbol : LogicOp → String
  | .and => "and"
  | .or => "or"

def UnaryOp.symbol : UnaryOp → String
  | .plus => "+"
  | .minus => "-"
  | .not => "not"

def BinaryOp.symbol : BinaryOp → String
  | .arithmetic op => op.symbol
  | .comparison op => op.symbol
  | .logic op => op.symbol

/-- Every node has the place of a token: an operation that of its operator, a call that of its name.
Numbers and strings keep the text that they are written with. An `extension` is a node that this
language has no rule for. -/
inductive Expr
  | number (text : String) (location : Location)
  | string (text : String) (location : Location)
  | boolean (value : Bool) (location : Location)
  | identifier (name : String) (location : Location)
  | unary (op : UnaryOp) (operand : Expr) (location : Location)
  | binary (op : BinaryOp) (left right : Expr) (location : Location)
  | conditional (test accept reject : Expr) (location : Location)
  | call (callee : Expr) (arguments : List Expr) (location : Location)
  | extension (name : String) (location : Location)

namespace Expr

def location : Expr → Location
  | .number _ l => l
  | .string _ l => l
  | .boolean _ l => l
  | .identifier _ l => l
  | .unary _ _ l => l
  | .binary _ _ _ l => l
  | .conditional _ _ _ l => l
  | .call _ _ l => l
  | .extension _ l => l

mutual

def describe : Expr → String
  | .number text _ => text
  | .string text _ => text
  | .boolean value _ => if value then "true" else "false"
  | .identifier name _ => name
  | .unary op operand _ => "(" ++ op.symbol ++ " " ++ operand.describe ++ ")"
  | .binary op left right _ =>
    "(" ++ op.symbol ++ " " ++ left.describe ++ " " ++ right.describe ++ ")"
  | .conditional test accept reject _ =>
    "(? " ++ test.describe ++ " " ++ accept.describe ++ " " ++ reject.describe ++ ")"
  | .call callee arguments _ => "(call " ++ callee.describe ++ describeAll arguments ++ ")"
  | .extension .. => "?"

def describeAll : List Expr → String
  | [] => ""
  | e :: es => " " ++ e.describe ++ describeAll es

end

mutual

def same : Expr → Expr → Bool
  | .number s _, .number t _ => s == t
  | .string s _, .string t _ => s == t
  | .boolean a _, .boolean b _ => a == b
  | .identifier s _, .identifier t _ => s == t
  | .unary op a _, .unary op' a' _ => op == op' && a.same a'
  | .binary op a b _, .binary op' a' b' _ => a.same a' && op == op' && b.same b'
  | .conditional a b c _, .conditional a' b' c' _ => a.same a' && b.same b' && c.same c'
  | .call f es _, .call f' es' _ => f.same f' && sameAll es es'
  | .extension s _, .extension t _ => s == t
  | _, _ => false

def sameAll : List Expr → List Expr → Bool
  | [], [] => true
  | e :: es, e' :: es' => e.same e' && sameAll es es'
  | _, _ => false

end

end Expr

end Formulae
