import Formulae.Diagnostic
import Formulae.Lexeme

namespace Formulae

inductive LexError
  | unterminatedString (start : String) (line column : Nat)
  | unknownCharacter (c : Char) (line column : Nat)
  deriving DecidableEq, Repr

namespace LexError

def suggestion (c : Char) : String :=
  match c with
  | '=' => "Use '==' to test for equality"
  | '!' => "Use '!=' to test for inequality or 'not' to negate a boolean"
  | '&' => "Use 'and' for boolean operations, not &"
  | '|' => "Use 'or' for boolean operations, not |"
  | '\'' => "Use double quotes for strings: \"text\""
  | '[' | ']' => "Use parentheses ( ) for grouping, not brackets [ ]"
  | '\x7b' | '\x7d' => "Use parentheses ( ) for grouping, not braces \x7b \x7d"
  | '.' => "Numbers need a digit before the decimal point: 0.5, not .5"
  | '_' => "Identifiers may only contain letters and digits"
  | _ => s!"'{c}' is not a valid character in a formula"

def unterminated (start : String) (location : Location) : Diagnostic where
  kind := .unterminatedString
  message := "Unterminated string literal"
  received := s!"String starting with: {start}..."
  expected := "Closing quote \" at end of string"
  context := "String literals must be enclosed in double quotes"
  suggestion := "Add closing quote \" at the end of the string"
  sample := "Correct: \"hello world\"\\nIncorrect: \"hello world"
  location := location

def controlCharacter (c : Char) (location : Location) : Diagnostic :=
  let code := c.toNat
  let shown := "\\u" ++ String.ofList (Text.hex 4 code)
  { kind := .unknownCharacter c.toString
    message := s!"Invalid control character in source code: {shown}"
    received := s!"Control character: {shown} (code {code})"
    expected := "Valid formula characters"
    context := "Only spaces, tabs and newlines may separate tokens"
    suggestion := "Remove the control character"
    location := location }

def invalidCharacter (c : Char) (location : Location) : Diagnostic :=
  let code := c.toNat
  { kind := .unknownCharacter c.toString
    message := s!"Invalid character: {c}"
    received := s!"Character: {c} (code {code})"
    expected := "Letters, digits, quotes, parentheses or an operator"
    context := "Only letters, digits, string literals and formula operators are allowed"
    suggestion := suggestion c
    sample := "Valid: prop(\"Price\") * 2 >= 10\\nInvalid: prop(\"Price\") & 2"
    location := location }

def toDiagnostic : LexError → Diagnostic
  | .unterminatedString start line column => unterminated start (Location.ofPair line column)
  | .unknownCharacter c line column =>
    if c.toNat < 32 then controlCharacter c (Location.ofPair line column)
    else invalidCharacter c (Location.ofPair line column)

def ofStuck (c : Char) (rest : List Char) (line column : Nat) : Lexeme.Stuck → LexError
  | .unterminatedString => .unterminatedString (String.ofList ((c :: rest).take 10)) line column
  | .unknownCharacter => .unknownCharacter c line column

end LexError

namespace Token

def listFrom (line column : Nat) : List Char → Except LexError (List Token)
  | [] => .ok [⟨.endOfInput, "", line, column⟩]
  | c :: rest =>
    if c = '\n' then listFrom (line + 1) 1 rest
    else if Lexeme.isBlank c then listFrom line (column + 1) rest
    else
      match Lexeme.extent c rest with
      | .error stuck => .error (LexError.ofStuck c rest line column stuck)
      | .ok (kind, n) =>
        match listFrom line (column + 1 + n) (rest.drop n) with
        | .error e => .error e
        | .ok tokens => .ok (⟨kind, String.ofList (c :: rest.take n), line, column⟩ :: tokens)
termination_by cs => cs.length
decreasing_by all_goals simp only [List.length_cons, List.length_drop]; omega

end Token

def lex (text : String) : Except LexError (List Token) := Token.listFrom 1 1 text.toList

end Formulae
