import Formulae.Log

namespace Formulae

structure Stage (α β : Type) where
  name : String
  run : α → Run β

inductive Pipeline : Type → Type → Type 1
  | empty : Pipeline α α
  | append (before : Pipeline α β) (stage : Stage β γ) : Pipeline α γ

namespace Pipeline

def length : Pipeline α β → Nat
  | .empty => 0
  | .append before _ => before.length + 1

def run : Pipeline α β → α → Run β
  | .empty, a => pure a
  | .append before stage, a => do
    let b ← before.run a
    Run.log .pipeline s!"running stage {before.length}: {stage.name}"
    stage.run b

end Pipeline

end Formulae
