import Formulae.Text.Printable

namespace Formulae.Text

def hex (width n : Nat) : List Char :=
  let digits := Nat.toDigits 16 n
  List.replicate (width - digits.length) '0' ++ digits

def numericEscape (n : Nat) : List Char :=
  if n < 0x100 then '\\' :: 'x' :: hex 2 n
  else if n < 0x10000 then '\\' :: 'u' :: hex 4 n
  else '\\' :: 'U' :: hex 8 n

def quoteFor (cs : List Char) : Char :=
  if cs.contains '\'' && !cs.contains '"' then '"' else '\''

/-- One character between quotes; `shown` are those that need no escape. -/
def escape (shown : Char → Bool) (quote c : Char) : List Char :=
  if c = quote ∨ c = '\\' then ['\\', c]
  else if c = '\n' then ['\\', 'n']
  else if c = '\r' then ['\\', 'r']
  else if c = '\t' then ['\\', 't']
  else if shown c then [c]
  else numericEscape c.toNat

def enclose (shown : Char → Bool) (cs : List Char) : List Char :=
  let quote := quoteFor cs
  quote :: cs.flatMap (escape shown quote) ++ [quote]

def quoted (text : String) : String := String.ofList (enclose isPrintable text.toList)

def isPlainByte (c : Char) : Bool := 0x20 ≤ c.toNat && c.toNat < 0x7f

/-- Bytes are quoted like the text of the characters with these codes, but only those of ASCII are
shown. -/
def quotedBytes (bytes : List UInt8) : String :=
  String.ofList ('b' :: enclose isPlainByte (bytes.map fun b => Char.ofNat b.toNat))

def quotedList (texts : List String) : String :=
  "[" ++ ", ".intercalate (texts.map quoted) ++ "]"

end Formulae.Text
