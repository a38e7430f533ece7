import Formulae.Context

namespace Formulae

abbrev Table (α : Type) := List (String × α)

namespace Table

def insert (name : String) (a : α) : Table α → Table α
  | [] => [(name, a)]
  | (n, b) :: rest =>
    if name = n then (name, a) :: rest
    else if name < n then (name, a) :: (n, b) :: rest
    else (n, b) :: insert name a rest

def ofList (entries : List (String × α)) : Table α :=
  entries.foldl (fun t (name, a) => insert name a t) []

def names (t : Table α) : List String := t.map (·.1)

def find? (name : String) (t : Table α) : Option α := t.lookup name

def listing (t : Table α) : String :=
  if t.isEmpty then "none" else ", ".intercalate (t.names.map fun n => s!"'{n}'")

end Table

abbrev Function := List Value → Except Fault Native

structure Bindings where
  values : Table Value
  functions : Table Function

namespace Bindings

def ofNatives (natives : List (String × Native)) (functions : List (String × Function)) :
    Except HostError Bindings := do
  let converted ← natives.mapM fun (name, native) => return (name, ← native.toValue)
  return { values := Table.ofList converted, functions := Table.ofList functions }

def undefinedIdentifier (b : Bindings) (name : String) : Fault :=
  Context.unsupported s!"Undefined identifier: '{name}'"
    s!"Available identifiers: {b.values.listing}"
    s!"Check spelling or bind '{name}' in the evaluation context"

def undefinedFunction (b : Bindings) (name : String) : Fault :=
  Context.unsupported s!"Undefined function: '{name}'"
    s!"Available functions: {b.functions.listing}"
    s!"Check spelling or provide '{name}' in the evaluation context"

def unsupportedResult (name typeName : String) : Fault :=
  .diagnostic
    { kind := .eval
      message := s!"Function '{name}' returned an unsupported value: {typeName}"
      expected := "A formula value, bool, int, float or str"
      suggestion := s!"Make '{name}' return a number, string or boolean" }

def resolve (b : Bindings) (name : String) : Except Fault Value :=
  match b.values.find? name with
  | some v => .ok v
  | none => .error (b.undefinedIdentifier name)

def result (name : String) : Native → Except Fault Value
  | .other typeName => .error (unsupportedResult name typeName)
  | native =>
    match native.toValue with
    | .ok v => .ok v
    | .error e => .error (.host e)

def invoke (b : Bindings) (name : String) (args : List Value) : Except Fault Value :=
  match b.functions.find? name with
  | none => .error (b.undefinedFunction name)
  | some function =>
    match function args with
    | .ok native => result name native
    | .error fault => .error fault

def context (b : Bindings) : Context where
  answer _
    | .resolve name => b.resolve name
    | .invoke name args => b.invoke name args

def inspect (b : Bindings) : String :=
  s!"FormulaDictContext(variables={Text.quotedList b.values.names}, functions={Text.quotedList b.functions.names})"

end Bindings

end Formulae
