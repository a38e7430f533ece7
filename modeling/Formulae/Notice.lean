import Formulae.Diagnostic

namespace Formulae

namespace Diagnostic

structure Details where
  message : String
  received : Option String := none
  expected : Option String := none
  context : Option String := none
  suggestion : Option String := none
  sample : Option String := none
  line : Option (Option Int) := none
  column : Option (Option Int) := none
  deriving DecidableEq, Repr

/-- The location that a diagnostic is made with. Only an unexpected token has one of its own for what
is left out. -/
def Kind.locationOf (details : Details) : Kind → Location
  | .unexpectedToken token => locationFor token details.line details.column
  | _ => ⟨details.line.join, details.column.join⟩

def ofDetails (kind : Kind) (details : Details) : Diagnostic where
  kind := kind
  message := details.message
  received := details.received
  expected := details.expected
  context := details.context
  suggestion := details.suggestion
  sample := details.sample
  location := kind.locationOf details

end Diagnostic

structure Notice where
  diagnostic : Diagnostic
  text : String
  deriving DecidableEq, Repr

namespace Notice

def ofDiagnostic (d : Diagnostic) : Notice := ⟨d, d.text⟩

def ofDetails (kind : Diagnostic.Kind) (details : Diagnostic.Details) : Notice :=
  ofDiagnostic (.ofDetails kind details)

/-- Gives a location to a notice that has none. The text stays as it is if the location does. -/
def locate (n : Notice) (l : Location) : Notice :=
  match n.diagnostic.location, l with
  | ⟨none, none⟩, ⟨some line, some column⟩ =>
    ofDiagnostic { n.diagnostic with location := ⟨some line, some column⟩ }
  | _, _ => n

end Notice

end Formulae
