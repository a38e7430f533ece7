import Formulae.Token

namespace Formulae

namespace Diagnostic

/-- What went wrong. The kinds after `read`, `lex`, `parse` and `eval` are special cases of these. -/
inductive Kind
  | general
  | read
  | lex
  | unterminatedString
  | unknownCharacter (character : String)
  | parse
  | unexpectedToken (token : Token)
  | expectedClosingParen
  | expectedColon
  | expectedClosingParenInCall
  | missingEnd
  | nestingTooDeep
  | eval
  | invalidOperands
  | typeMismatch
  | expectedBooleanOperands
  | expectedBooleanOperand
  | expectedNumericOperand
  | invalidNumericLiteral
  | branchTypeMismatch
  | expectedBooleanTest
  | unsupportedFeature
  | evalNestingTooDeep
  deriving DecidableEq, Repr

inductive Family
  | general | read | lex | parse | eval
  deriving DecidableEq, Repr

def Kind.family : Kind → Family
  | .general => .general
  | .read => .read
  | .lex | .unterminatedString | .unknownCharacter _ => .lex
  | .parse | .unexpectedToken _ | .expectedClosingParen | .expectedColon
  | .expectedClosingParenInCall | .missingEnd | .nestingTooDeep => .parse
  | .eval | .invalidOperands | .typeMismatch | .expectedBooleanOperands | .expectedBooleanOperand
  | .expectedNumericOperand | .invalidNumericLiteral | .branchTypeMismatch | .expectedBooleanTest
  | .unsupportedFeature | .evalNestingTooDeep => .eval

end Diagnostic

structure Diagnostic where
  kind : Diagnostic.Kind
  message : String
  received : Option String := none
  expected : Option String := none
  context : Option String := none
  suggestion : Option String := none
  sample : Option String := none
  location : Location := Location.nowhere
  deriving DecidableEq, Repr

namespace Diagnostic

def detail (label : String) : Option String → List String
  | none => []
  | some text => if text = "" then [] else [s!"{label}: {text}"]

def locationLine : Location → List String
  | ⟨some line, some column⟩ => [s!"Location: line {line}, column {column}"]
  | _ => []

def lines (d : Diagnostic) : List String :=
  s!"Error: {d.message}" :: locationLine d.location ++ detail "Received" d.received ++
    detail "Expected" d.expected ++ detail "Context" d.context ++
    detail "Suggestion" d.suggestion ++ detail "Example" d.sample

def text (d : Diagnostic) : String := "\n".intercalate d.lines

/-- The location of a diagnostic about a token: a half that is not given is the token's, but one that
is given as missing stays so. -/
def locationFor (token : Token) (line column : Option (Option Int)) : Location where
  line := line.getD token.line
  column := column.getD token.column

def locate (d : Diagnostic) (l : Location) : Diagnostic :=
  { d with location := d.location.orElse l }

end Diagnostic

inductive HostError
  | value (text : String)
  | key (key : String)
  | runtime (text : String)
  | zeroDivision (text : String)
  | type (text : String)
  | index (text : String)
  | overflow (text : String)
  | attribute (text : String)
  deriving DecidableEq, Repr

def HostError.text : HostError → String
  | .key k => Text.quoted k
  | .value t | .runtime t | .zeroDivision t | .type t | .index t | .overflow t
  | .attribute t => t

inductive Fault
  | diagnostic (d : Diagnostic)
  | host (e : HostError)
  deriving DecidableEq, Repr

def Fault.locate (l : Location) : Fault → Fault
  | .diagnostic d => .diagnostic (d.locate l)
  | .host e => .host e

end Formulae
