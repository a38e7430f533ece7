import Formulae.Diagnostic

namespace Formulae

/-- Each case holds the token that shows the error, last, and what has to be said about it. -/
inductive ParseError
  | endExpected (found : Token)
  | operandExpected (found : Token)
  | colonExpected (found : Token)
  | parenExpected (opening found : Token)
  | callUnclosed (name found : Token)
  | tooDeep (limit : Int) (entered : Token)
  | endMissing
  deriving DecidableEq, Repr

namespace ParseError

def endExpectedDiagnostic (found : Token) : Diagnostic where
  kind := .unexpectedToken found
  message := s!"Unexpected token after complete expression: {found.describe}"
  received := s!"Found: {found.describe}"
  expected := "End of expression"
  context := "A formula is exactly one expression and comparisons do not chain"
  suggestion := "Remove extra tokens, or combine comparisons with 'and' / 'or'"
  sample := "Correct: 1 < 2 and 2 < 3\\nIncorrect: 1 < 2 < 3"
  location := found.location

def operandExpectedDiagnostic (found : Token) : Diagnostic where
  kind := .unexpectedToken found
  message := s!"Unexpected token: {found.describe}"
  received := s!"Token: {found.describe} (type: {found.kind.name})"
  expected := "Number, string, true, false, identifier, function call or '('"
  context := s!"Token {found.describe} cannot start an operand"
  suggestion := "Check for a missing operand or an extra operator"
  sample := "Valid starts: 42, \"hello\", true, price, prop(\"Name\"), ("
  location := found.location

def colonExpectedDiagnostic (found : Token) : Diagnostic where
  kind := .expectedColon
  message := "Expected ':' in ternary expression"
  received := s!"Found: {found.describe}"
  expected := "':' followed by the value for a false test"
  context := "A nested ternary in the true branch must be wrapped in parentheses"
  suggestion := "Add ':' and the value to use when the test is false"
  sample := "Correct: x > 1 ? \"big\" : \"small\"\\nIncorrect: x > 1 ? \"big\""
  location := found.location

def parenExpectedDiagnostic (opening found : Token) : Diagnostic where
  kind := .expectedClosingParen
  message := "Expected ')' to close parenthesised expression"
  received := s!"Found: {found.describe}"
  expected := "')'"
  context := s!"The '(' at line {opening.line}, column {opening.column} is never closed"
  suggestion := "Add ')' to close the expression"
  sample := "Correct: (1 + 2) * 3\\nIncorrect: (1 + 2 * 3"
  location := found.location

def callUnclosedDiagnostic (name found : Token) : Diagnostic where
  kind := .expectedClosingParenInCall
  message := s!"Expected ')' to close call to '{name.lexeme}'"
  received := s!"Found: {found.describe}"
  expected := "',' followed by another argument, or ')'"
  context := s!"Call to '{name.lexeme}' starts at line {name.line}, column {name.column}"
  suggestion := "Separate arguments with ',' and close the call with ')'"
  sample := "Correct: max(1, 2)\\nIncorrect: max(1 2)"
  location := found.location

def tooDeepDiagnostic (limit : Int) (entered : Token) : Diagnostic where
  kind := .nestingTooDeep
  message := s!"Expression too deeply nested (max depth: {limit})"
  suggestion := "Reduce nesting depth or increase max_depth limit"
  location := entered.location

def endMissingDiagnostic : Diagnostic where
  kind := .missingEnd
  message := "No end-of-input token found"
  expected := "Token list ending with an EOF token"
  suggestion := "Pass the complete output of the lexer to the parser"

def toDiagnostic : ParseError → Diagnostic
  | .endExpected found => endExpectedDiagnostic found
  | .operandExpected found => operandExpectedDiagnostic found
  | .colonExpected found => colonExpectedDiagnostic found
  | .parenExpected opening found => parenExpectedDiagnostic opening found
  | .callUnclosed name found => callUnclosedDiagnostic name found
  | .tooDeep limit entered => tooDeepDiagnostic limit entered
  | .endMissing => endMissingDiagnostic

end ParseError

end Formulae
