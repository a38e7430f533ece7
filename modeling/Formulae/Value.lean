import Formulae.Decimal.Numeral
import Formulae.Diagnostic

namespace Formulae

inductive Value
  | number (x : Float)
  | string (s : String)
  | boolean (b : Bool)
  deriving DecidableEq

namespace Value

inductive Kind
  | number | string | boolean
  deriving DecidableEq, Repr

def Kind.name : Kind → String
  | .number => "number"
  | .string => "string"
  | .boolean => "boolean"

def kind : Value → Kind
  | .number _ => .number
  | .string _ => .string
  | .boolean _ => .boolean

def describe : Value → String
  | .number x => Numeral.write x
  | .string s => s
  | .boolean b => if b then "true" else "false"

/-- Values of different kinds differ, the two zeros do not. -/
def same : Value → Value → Bool
  | .number x, .number y => x == y
  | .string s, .string t => s == t
  | .boolean a, .boolean b => a == b
  | _, _ => false

end Value

/-- A value of the host program. Of the types without a counterpart only the name matters. -/
inductive Native
  | integer (n : Int)
  | float (x : Float)
  | string (s : String)
  | boolean (b : Bool)
  | value (v : Value)
  | other (typeName : String)
  deriving DecidableEq

namespace Native

def toValue : Native → Except HostError Value
  | .integer n =>
    match Double.ofInt? n with
    | some x => .ok (.number x)
    | none => .error (.overflow "int too large to convert to float")
  | .float x => .ok (.number x)
  | .string s => .ok (.string s)
  | .boolean b => .ok (.boolean b)
  | .value v => .ok v
  | .other name => .error (.type s!"Cannot convert {name} to a formula value")

end Native

end Formulae
