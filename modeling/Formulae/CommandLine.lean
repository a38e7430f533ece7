import Formulae.Bindings
import Formulae.CommandLine.Options
import Formulae.Session
import Formulae.Source

/-!
The command line: from options to what is printed. All that reaches the outside goes through a
`Console`, so that the program is the same over real files as over any other. What is wrong with a
formula or its file is printed; what is wrong with an option beyond that ends the program.
-/

namespace Formulae.CommandLine

structure Console (m : Type → Type) where
  input : m (List UInt8)
  file : String → m (Except String (List UInt8))
  print : String → m Unit
  complain : String → m Unit
  openLog : String → m Unit
  record : Option String → Log.Record → m Unit

/-- The level of an option that has no value cannot be looked up. -/
def requireLevel : Option Log.Level → Except HostError Log.Level
  | some level => .ok level
  | none => .error (.attribute "'list' object has no attribute 'upper'")

def requireBindings (place : Nat) :
    List (Option (String × Value)) → Except HostError (List (String × Value))
  | [] => .ok []
  | some binding :: rest => do return binding :: (← requireBindings (place + 1) rest)
  | none :: _ =>
    .error (.value
      s!"dictionary update sequence element #{place} has length 0; 2 is required")

def requireFileName (name : String) : Except HostError String :=
  if name.toList.contains '\x00' then .error (.value "embedded null byte") else .ok name

def noLimit : HostError := .type "'>' not supported between instances of 'int' and 'list'"

def parseWithin (limit : Option Int) (tokens : List Token) : Run Expr :=
  match limit with
  | some n => Session.parseTokens { maxParseDepth := n } tokens
  | none => throw (.host noLimit)

def interpretWithin (limit : Option Int) (context : Context) (e : Expr) : Run Value :=
  match limit with
  | some n => Session.interpret { maxEvalDepth := n } context e
  | none => throw (.diagnostic (e.report (.host noLimit)))

def answer (o : Options) (bindings : List (String × Value)) (text : String) :
    Run (List String) := do
  let parse := parseWithin o.maxParseDepth
  match o.output with
  | .tokens => return (← Session.tokenize text).map Token.listing
  | .tree => return [(← (Session.parsingWith parse).run text).describe]
  | .value =>
    let b : Bindings := { values := Table.ofList bindings, functions := [] }
    let interpret := interpretWithin o.maxEvalDepth b.context
    return [(← Session.reporting (Session.evaluatingWith parse interpret) text).describe]

def attempt (o : Options) (bindings : List (String × Value)) (source : Except Diagnostic String) :
    Run (Except Diagnostic (List String)) :=
  tryCatch
    (do
      match source with
      | .ok text => return .ok (← answer o bindings text)
      | .error d => throw (.diagnostic d))
    fun fault => do
      match fault with
      | .diagnostic d =>
        Run.log .commandLine s!"formula failed: {d.message}"
        return .error d
      | .host e => throw (.host e)

section

variable {m : Type → Type} [Monad m]

def decodeSource (bytes : List UInt8) : Except Diagnostic String :=
  match (Source.memory bytes).read Source.defaultSize with
  | .ok text => .ok text
  | .error e => .error e.toDiagnostic

def readFormula (console : Console m) (o : Options) :
    ExceptT HostError m (Except String (Except Diagnostic String)) := do
  match o.formula, o.file with
  | some text, _ => return .ok (.ok text)
  | none, some name =>
    let found ← console.file (← requireFileName name)
    return found.map decodeSource
  | none, none => return .ok (decodeSource (← console.input))

def openLog (console : Console m) : Option String → ExceptT HostError m Unit
  | some name => do console.openLog (← requireFileName name)
  | none => pure ()

def finish (console : Console m) : Except String (List String) → m UInt32
  | .ok lines => do
    for line in lines do console.print line
    return 0
  | .error text => do
    console.complain s!"error: {text}"
    return 1

def run (console : Console m) (o : Options) : ExceptT HostError m UInt32 := do
  openLog console o.logFile
  let level ← requireLevel o.logLevel
  let bindings ← requireBindings 0 o.bindings
  match ← readFormula console o with
  | .error text => ExceptT.lift (finish console (.error text))
  | .ok source =>
    let (result, journal) := (attempt o bindings source).outcome
    for record in journal.records do
      if level.rank ≤ record.level.rank then console.record o.logFile record
    match result with
    | .ok lines => ExceptT.lift (finish console (lines.mapError Diagnostic.text))
    | .error (.host e) => throw e
    | .error (.diagnostic d) => ExceptT.lift (finish console (.error d.text))

end

end Formulae.CommandLine
