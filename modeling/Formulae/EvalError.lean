import Formulae.Expr
import Formulae.Value

namespace Formulae

inductive EvalError
  | tooDeep (limit : Int)
  | invalidNumber (text : String)
  | invalidOperands (op : ArithmeticOp) (left right : Value)
  | kindMismatch (left right : Value)
  | booleansExpected (op : LogicOp) (left right : Value)
  | booleanExpected (operand : Value)
  | numberExpected (operand : Value)
  | testExpected (test : Value)
  | branchMismatch (accept reject : Value)
  | notCallable (description : String)
  | unknownNode (name : String)
  | raised (error : HostError)
  | raisedByFunction (name : String) (error : HostError)
  deriving DecidableEq

namespace EvalError

def shown (v : Value) : String := s!"{v.describe} ({v.kind.name})"

def tooDeepDiagnostic (limit : Int) (location : Location) : Diagnostic where
  kind := .evalNestingTooDeep
  message := s!"Expression too deeply nested (max depth: {limit})"
  suggestion := "Reduce nesting depth or increase max_depth limit"
  location := location

def invalidNumberDiagnostic (text : String) (location : Location) : Diagnostic where
  kind := .invalidNumericLiteral
  message := s!"Invalid numeric literal: {text}"
  received := s!"Text: {Text.quoted text}"
  expected := "Decimal number such as 42, 3.14 or 1e-3"
  sample := "Valid: +\"42\" or +\"1.5e3\"\\nInvalid: +\"forty-two\""
  location := location

def operandsSuggestion (left right : Value) : String :=
  if left.kind = .string ∧ right.kind = .string then "Strings only support '+' (concatenation)"
  else "Both operands must be numbers, or both strings for '+'"

def invalidOperandsDiagnostic (op : ArithmeticOp) (left right : Value) (location : Location) :
    Diagnostic where
  kind := .invalidOperands
  message := s!"Invalid operands for '{op.symbol}': {left.kind.name} and {right.kind.name}"
  received := s!"Left: {shown left}, right: {shown right}"
  expected := "Two numbers, or two strings for '+'"
  suggestion := operandsSuggestion left right
  sample := "Valid: 1 + 2, \"a\" + \"b\"\\nInvalid: 1 + \"b\", \"a\" * \"b\""
  location := location

def kindMismatchDiagnostic (left right : Value) (location : Location) : Diagnostic where
  kind := .typeMismatch
  message :=
    s!"Cannot compare values of different types: {left.kind.name} and {right.kind.name}"
  received := s!"Left: {shown left}, right: {shown right}"
  expected := "Two values of the same type"
  suggestion :=
    "Convert one side first, for example with unary '+' to turn a string into a number"
  location := location

def booleansExpectedDiagnostic (op : LogicOp) (left right : Value) (location : Location) :
    Diagnostic where
  kind := .expectedBooleanOperands
  message :=
    s!"'{op.symbol}' requires boolean operands, got {left.kind.name} and {right.kind.name}"
  received := s!"Left: {left.describe}, right: {right.describe}"
  expected := "Two booleans"
  suggestion := "Use a comparison to produce a boolean, for example x > 0"
  location := location

def booleanExpectedDiagnostic (operand : Value) (location : Location) : Diagnostic where
  kind := .expectedBooleanOperand
  message := s!"'not' requires a boolean operand, got {operand.kind.name}"
  received := s!"Operand: {operand.describe}"
  expected := "A boolean"
  sample := "Valid: not (x > 1)\\nInvalid: not 1"
  location := location

def numberExpectedDiagnostic (operand : Value) (location : Location) : Diagnostic where
  kind := .expectedNumericOperand
  message := s!"Unary '-' requires a numeric operand, got {operand.kind.name}"
  received := s!"Operand: {operand.describe}"
  expected := "A number"
  suggestion := "Convert the value to a number with unary '+' first"
  location := location

def testExpectedDiagnostic (test : Value) (location : Location) : Diagnostic where
  kind := .expectedBooleanTest
  message := s!"Ternary test must be a boolean, got {test.kind.name}"
  received := s!"Test: {test.describe}"
  expected := "A boolean"
  sample := "Valid: x > 1 ? \"big\" : \"small\"\\nInvalid: x ? \"big\" : \"small\""
  location := location

def branchMismatchDiagnostic (accept reject : Value) (location : Location) : Diagnostic where
  kind := .branchTypeMismatch
  message :=
    s!"Ternary branches must have the same type: {accept.kind.name} and {reject.kind.name}"
  received := s!"True branch: {accept.describe}, false branch: {reject.describe}"
  expected := "Two values of the same type"
  suggestion := "Make both branches numbers, both strings or both booleans"
  location := location

def notCallableDiagnostic (description : String) (location : Location) : Diagnostic where
  kind := .unsupportedFeature
  message := s!"Cannot call {description}"
  expected := "A function name"
  location := location

/-- The only report without a location. -/
def unknownNodeDiagnostic (name : String) : Diagnostic where
  kind := .eval
  message := s!"Unknown expression type: {name}"
  suggestion := "This is an internal error - please report this issue"

def raisedDiagnostic (error : HostError) (context : Option String) (location : Location) :
    Diagnostic where
  kind := .eval
  message := s!"Unexpected error during evaluation: {error.text}"
  context := context
  suggestion := "Check the functions supplied by the evaluation context"
  location := location

def toDiagnostic (location : Location) : EvalError → Diagnostic
  | .tooDeep limit => tooDeepDiagnostic limit location
  | .invalidNumber text => invalidNumberDiagnostic text location
  | .invalidOperands op left right => invalidOperandsDiagnostic op left right location
  | .kindMismatch left right => kindMismatchDiagnostic left right location
  | .booleansExpected op left right => booleansExpectedDiagnostic op left right location
  | .booleanExpected operand => booleanExpectedDiagnostic operand location
  | .numberExpected operand => numberExpectedDiagnostic operand location
  | .testExpected test => testExpectedDiagnostic test location
  | .branchMismatch accept reject => branchMismatchDiagnostic accept reject location
  | .notCallable description => notCallableDiagnostic description location
  | .unknownNode name => unknownNodeDiagnostic name
  | .raised error => raisedDiagnostic error none location
  | .raisedByFunction name error =>
    raisedDiagnostic error (some s!"Raised by function '{name}'") location

end EvalError

end Formulae
