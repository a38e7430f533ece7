import Formulae.Value

/-!
Contexts: what formulas are evaluated in. A context answers requests for the value of a name and for
the result of a function. Its answers may depend on all earlier requests.
-/

namespace Formulae

inductive Request
  | resolve (name : String)
  | invoke (name : String) (arguments : List Value)
  deriving DecidableEq

/-- The earlier requests come latest first. -/
structure Context where
  answer : (earlier : List Request) → Request → Except Fault Value

namespace Context

def unsupported (message context suggestion : String) : Fault :=
  .diagnostic
    { kind := .unsupportedFeature, message := message, context := context,
      suggestion := suggestion }

def noBindings : Context where
  answer _
    | .resolve name =>
      .error (unsupported s!"Cannot resolve identifier: '{name}'"
        "No evaluation context was supplied, so identifiers have no values"
        "Evaluate with a context that binds this name")
    | .invoke name _ =>
      .error (unsupported s!"Cannot call function: '{name}'"
        "No evaluation context was supplied, so no functions are available"
        "Evaluate with a context that provides this function")

def failing (fault : Fault) : Context where
  answer _ _ := .error fault

end Context

end Formulae
