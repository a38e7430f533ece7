import Formulae.Diagnostic

namespace Formulae

structure Cursor (α : Type) where
  elements : List α
  windowStart : Nat := 0
  position : Nat := 0
  deriving DecidableEq, Repr

namespace Cursor

def ofList (elements : List α) : Cursor α := { elements := elements }

/-- The element `n` places ahead, if there is one. A place before the first element counts from the
end of the sequence instead, and must be one of its places. -/
def peek (n : Int) (c : Cursor α) : Except HostError (Option α) :=
  let place := c.position + n
  let fromEnd := place + c.elements.length
  if 0 ≤ place then .ok c.elements[place.toNat]?
  else if 0 ≤ fromEnd then .ok c.elements[fromEnd.toNat]?
  else .error (.index "list index out of range")

def advance (c : Cursor α) : Cursor α :=
  if c.position = c.elements.length then c else { c with position := c.position + 1 }

def slice (c : Cursor α) : List α :=
  (c.elements.take c.position).drop c.windowStart

def commit (c : Cursor α) : Cursor α := { c with windowStart := c.position }

def inspect (c : Cursor α) : String :=
  s!"FormulaCursor(len={c.elements.length}, window_start={c.windowStart}, position={c.position})"

inductive Step
  | peek (n : Int) | advance | slice | commit
  deriving DecidableEq, Repr

inductive Answer (α : Type)
  | element (e : Option α)
  | window (es : List α)
  | done
  deriving DecidableEq, Repr

def run (c : Cursor α) : Step → Except HostError (Answer α) × Cursor α
  | .peek n => ((c.peek n).map .element, c)
  | .advance => (.ok .done, c.advance)
  | .slice => (.ok (.window c.slice), c)
  | .commit => (.ok .done, c.commit)

end Cursor

end Formulae
