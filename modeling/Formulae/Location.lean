namespace Formulae

structure Location where
  line : Option Int
  column : Option Int
  deriving DecidableEq, Repr

namespace Location

def nowhere : Location := ⟨none, none⟩

def ofPair (line column : Int) : Location := ⟨some line, some column⟩

/-- The first location that is given stays: `l` gives way to `m` only if nothing of `l` and all of
`m` is known. -/
def orElse (l m : Location) : Location :=
  match l, m with
  | ⟨none, none⟩, ⟨some line, some column⟩ => ⟨some line, some column⟩
  | _, _ => l

end Location

end Formulae
