/-!
Integers as text: blanks around them, a sign and digits, which single underscores may divide. The
digits of every script count, and so do all blanks of Unicode 14 except the ASCII separators
(`U+001C` to `U+001F`). There may be 4300 digits, zeros in front included.
-/

namespace Formulae.Text

def zeros : Array Nat := #[
  0x30, 0x660, 0x6f0, 0x7c0, 0x966, 0x9e6, 0xa66, 0xae6, 0xb66, 0xbe6, 0xc66, 0xce6, 0xd66,
  0xde6, 0xe50, 0xed0, 0xf20, 0x1040, 0x1090, 0x17e0, 0x1810, 0x1946, 0x19d0, 0x1a80, 0x1a90,
  0x1b50, 0x1bb0, 0x1c40, 0x1c50, 0xa620, 0xa8d0, 0xa900, 0xa9d0, 0xa9f0, 0xaa50, 0xabf0, 0xff10,
  0x104a0, 0x10d30, 0x11066, 0x110f0, 0x11136, 0x111d0, 0x112f0, 0x11450, 0x114d0, 0x11650,
  0x116c0, 0x11730, 0x118e0, 0x11950, 0x11c50, 0x11d50, 0x11da0, 0x16a60, 0x16ac0, 0x16b50,
  0x1d7ce, 0x1d7d8, 0x1d7e2, 0x1d7ec, 0x1d7f6, 0x1e140, 0x1e2f0, 0x1e950, 0x1fbf0]

def digitValue? (c : Char) : Option Nat :=
  (zeros.find? fun first => first ≤ c.toNat && c.toNat < first + 10).map (c.toNat - ·)

def blankRanges : List (Nat × Nat) :=
  [(0x9, 0xd), (0x20, 0x20), (0x85, 0x85), (0xa0, 0xa0), (0x1680, 0x1680), (0x2000, 0x200a),
    (0x2028, 0x2029), (0x202f, 0x202f), (0x205f, 0x205f), (0x3000, 0x3000)]

def isBlank (c : Char) : Bool :=
  blankRanges.any fun (first, last) => first ≤ c.toNat && c.toNat ≤ last

def strip (cs : List Char) : List Char :=
  ((cs.dropWhile isBlank).reverse.dropWhile isBlank).reverse

def readDigits (n : Nat) : List Char → Option Nat
  | [] => some n
  | '_' :: c :: cs => do readDigits (10 * n + (← digitValue? c)) cs
  | c :: cs => do readDigits (10 * n + (← digitValue? c)) cs

def maxDigits : Nat := 4300

def readNatural (cs : List Char) : Option Nat :=
  if maxDigits < cs.countP (· ≠ '_') then none
  else
    match cs with
    | [] => none
    | c :: cs => do readDigits (← digitValue? c) cs

def readInteger (text : String) : Option Int :=
  match strip text.toList with
  | '-' :: cs => (readNatural cs).map fun n => -(n : Int)
  | '+' :: cs => (readNatural cs).map Int.ofNat
  | cs => (readNatural cs).map Int.ofNat

def dropFinalNewline (cs : List Char) : List Char :=
  if cs.getLast? = some '\n' then cs.dropLast else cs

/-- Whether a text is a minus sign and a number, with digits after the point if it has one. A newline
may end it. -/
def isNegativeNumber (text : String) : Bool :=
  match dropFinalNewline text.toList with
  | '-' :: cs =>
    let isDigit c := (digitValue? c).isSome
    match cs.dropWhile isDigit with
    | [] => cs ≠ []
    | '.' :: fraction => fraction ≠ [] && fraction.all isDigit
    | _ => false
  | _ => false

end Formulae.Text
