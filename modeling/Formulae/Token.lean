import Formulae.Location
import Formulae.Text.Quoted

namespace Formulae

namespace Token

inductive Kind
  | leftParen | rightParen | comma | question | colon
  | plus | minus | star | slash | percent | caret
  | bangEqual | equalEqual | greater | greaterEqual | less | lessEqual
  | identifier | string | number
  | wordAnd | wordOr | wordNot | wordTrue | wordFalse
  | endOfInput
  deriving DecidableEq, Repr

def Kind.name : Kind → String
  | .leftParen => "LPAREN"
  | .rightParen => "RPAREN"
  | .comma => "COMMA"
  | .question => "QUESTION"
  | .colon => "COLON"
  | .plus => "PLUS"
  | .minus => "MINUS"
  | .star => "STAR"
  | .slash => "SLASH"
  | .percent => "PERCENT"
  | .caret => "CARET"
  | .bangEqual => "BANG_EQUAL"
  | .equalEqual => "EQUAL_EQUAL"
  | .greater => "GREATER"
  | .greaterEqual => "GREATER_EQUAL"
  | .less => "LESS"
  | .lessEqual => "LESS_EQUAL"
  | .identifier => "IDENTIFIER"
  | .string => "STRING"
  | .number => "NUMBER"
  | .wordAnd => "AND"
  | .wordOr => "OR"
  | .wordNot => "NOT"
  | .wordTrue => "TRUE"
  | .wordFalse => "FALSE"
  | .endOfInput => "EOF"

/-- The lexeme of a kind that has only one, and the name of any other kind. -/
def Kind.spelling : Kind → String
  | .leftParen => "("
  | .rightParen => ")"
  | .comma => ","
  | .question => "?"
  | .colon => ":"
  | .plus => "+"
  | .minus => "-"
  | .star => "*"
  | .slash => "/"
  | .percent => "%"
  | .caret => "^"
  | .bangEqual => "!="
  | .equalEqual => "=="
  | .greater => ">"
  | .greaterEqual => ">="
  | .less => "<"
  | .lessEqual => "<="
  | .wordAnd => "and"
  | .wordOr => "or"
  | .wordNot => "not"
  | .wordTrue => "true"
  | .wordFalse => "false"
  | kind => kind.name

def Kind.all : List Kind :=
  [.leftParen, .rightParen, .comma, .question, .colon, .plus, .minus, .star, .slash, .percent,
    .caret, .bangEqual, .equalEqual, .greater, .greaterEqual, .less, .lessEqual, .identifier,
    .string, .number, .wordAnd, .wordOr, .wordNot, .wordTrue, .wordFalse, .endOfInput]

def Kind.ofName? (name : String) : Option Kind := Kind.all.find? (·.name = name)

end Token

/-- A piece of a formula's text. A string keeps its quotes and a number its spelling. -/
structure Token where
  kind : Token.Kind
  lexeme : String
  line : Int
  column : Int
  deriving DecidableEq, Repr

namespace Token

def location (t : Token) : Location := Location.ofPair t.line t.column

def describe (t : Token) : String :=
  if t.kind = .endOfInput then "end of input" else s!"'{t.lexeme}'"

def inspect (t : Token) : String :=
  s!"FormulaToken({t.kind.name}, {Text.quoted t.lexeme}, line={t.line}, column={t.column})"

def listing (t : Token) : String := s!"{t.line}:{t.column}\t{t.kind.name}\t{t.lexeme}"

end Token

end Formulae
