import Formulae.CommandLine.Argument
import Formulae.Log

/-!
The options that the arguments of the command line stand for. They may stand before and after the
formula. An option whose value is given as `--` has no value: for a file that is the same as leaving
the option out, while other options then lack what they need, which shows only when it is used.
-/

namespace Formulae.CommandLine

inductive Output
  | value | tokens | tree
  deriving DecidableEq, Repr

structure Options where
  formula : Option String := none
  file : Option String := none
  output : Output := .value
  bindings : List (Option (String × Value)) := []
  maxParseDepth : Option Int := some 32
  maxEvalDepth : Option Int := some 200
  logLevel : Option Log.Level := some .warning
  logFile : Option String := none
  deriving DecidableEq

def valueOf (text : String) : Value :=
  if text = "true" then .boolean true
  else if text = "false" then .boolean false
  else
    match Numeral.read text with
    | some x => .number x
    | none => .string text

def parseBinding (binding : String) : Except UsageError (String × Value) :=
  match splitEqual binding.toList with
  | (name, some value) =>
    if name = [] then .error (.badBinding binding)
    else .ok (String.ofList name, valueOf (String.ofList value))
  | (_, none) => .error (.badBinding binding)

def parseDepth (text : String) : Except UsageError Int :=
  match Text.readInteger text with
  | some n => .ok n
  | none => .error (.badInteger text)

def parseLevel (text : String) : Except UsageError Log.Level :=
  match Log.Level.ofName? text with
  | some level => .ok level
  | none => .error (.badLevel text)

def given (read : String → Except UsageError α) (text : String) : Except UsageError (Option α) :=
  if text = "--" then .ok none else some <$> read text

namespace Options

def setOutput (output : Output) (o : Options) : Except UsageError Options :=
  if o.output = .value ∨ o.output = output then .ok { o with output := output }
  else .error .conflictingOutputs

def fileName (text : String) : Option String :=
  if text = "" ∨ text = "--" then none else some text

def setValue (flag : Flag) (text : String) (o : Options) : Except UsageError Options := do
  match flag with
  | .file => return { o with file := fileName text }
  | .variable =>
    let binding ← given parseBinding text
    return { o with bindings := o.bindings ++ [binding] }
  | .maxParseDepth => return { o with maxParseDepth := ← given parseDepth text }
  | .maxEvalDepth => return { o with maxEvalDepth := ← given parseDepth text }
  | .logLevel => return { o with logLevel := ← given parseLevel text }
  | .logFile => return { o with logFile := fileName text }
  | .help | .tokens | .tree => throw (.unexpectedValue flag.name)

def checkCluster (rest : List Argument) : List Char → Except UsageError Unit
  | ['h'] => .ok ()
  | 'h' :: letters => checkCluster rest letters
  | ['f'] =>
    match rest with
    | .plain _ :: _ => .ok ()
    | _ => .error (.missingValue Flag.file.name)
  | 'f' :: _ => .ok ()
  | _ => .error (.unexpectedValue Flag.help.name)

/-- Acts on arguments in their order; nothing at all is done if help is asked for. An argument that
is left over, such as a second formula, is refused in the end. A mark next to the formula belongs to
it, and any other mark is left over. -/
def readFrom (o : Options) (extra : Option UsageError) :
    List Argument → Except UsageError (Option Options)
  | [] =>
    match extra with
    | none => .ok (some o)
    | some e => .error e
  | .unknown text :: rest => o.readFrom (extra <|> some (.unknownOption text)) rest
  | .plain text :: .mark :: rest =>
    match o.formula with
    | none => readFrom { o with formula := some text } extra rest
    | some _ => o.readFrom (extra <|> some (.extraArgument text)) rest
  | .plain text :: rest =>
    match o.formula with
    | none => readFrom { o with formula := some text } extra rest
    | some _ => o.readFrom (extra <|> some (.extraArgument text)) rest
  | .mark :: rest =>
    match o.formula with
    | none => o.readFrom extra rest
    | some _ => o.readFrom (extra <|> some (.extraArgument "--")) rest
  | .cluster letters :: rest => do
    checkCluster rest letters
    return none
  | .option .help none :: _ => .ok none
  | .option .tokens none :: rest => do (← o.setOutput .tokens).readFrom extra rest
  | .option .tree none :: rest => do (← o.setOutput .tree).readFrom extra rest
  | .option flag (some text) :: rest => do (← o.setValue flag text).readFrom extra rest
  | .option flag none :: .plain text :: rest => do (← o.setValue flag text).readFrom extra rest
  | .option flag none :: _ => .error (.missingValue flag.name)

def ofArguments (arguments : List String) : Except UsageError (Option Options) := do
  readFrom {} none (← Argument.ofTexts arguments)

end Options

end Formulae.CommandLine
