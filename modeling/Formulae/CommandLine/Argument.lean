import Formulae.Text.Integer
import Formulae.Text.Quoted

/-!
The arguments of the command line, one by one: options with the value that stands in the same
argument, and plain arguments. An argument that starts with a dash is no option if it is the dash
alone, or if it begins no option's name and reads as a negative number or has a space in it. All
arguments after `--` are plain. Long options may be cut short as long as they stay unambiguous.
-/

namespace Formulae.CommandLine

inductive UsageError
  | unknownOption (argument : String)
  | ambiguousOption (argument : String)
  | missingValue (option : String)
  | unexpectedValue (option : String)
  | badBinding (binding : String)
  | badInteger (text : String)
  | badLevel (text : String)
  | conflictingOutputs
  | extraArgument (argument : String)
  deriving DecidableEq, Repr

def UsageError.message : UsageError → String
  | .unknownOption argument => s!"unrecognized arguments: {argument}"
  | .ambiguousOption argument => s!"ambiguous option: {argument}"
  | .missingValue option => s!"argument {option}: expected one argument"
  | .unexpectedValue option => s!"argument {option}: unexpected value"
  | .badBinding binding => s!"expected NAME=VALUE, got {Text.quoted binding}"
  | .badInteger text => s!"invalid int value: {Text.quoted text}"
  | .badLevel text => s!"invalid choice: {Text.quoted text}"
  | .conflictingOutputs => "only one of --tokens and --ast is allowed"
  | .extraArgument argument => s!"unrecognized arguments: {argument}"

inductive Flag
  | help | file | tokens | tree | variable | maxParseDepth | maxEvalDepth | logLevel | logFile
  deriving DecidableEq, Repr

def flagNames : List (String × Flag) :=
  [("-h", .help), ("--help", .help), ("-f", .file), ("--file", .file), ("--tokens", .tokens),
    ("--ast", .tree), ("--var", .variable), ("--max-parse-depth", .maxParseDepth),
    ("--max-eval-depth", .maxEvalDepth), ("--log-level", .logLevel), ("--log-file", .logFile)]

def Flag.name (flag : Flag) : String :=
  match flagNames.reverse.find? (·.2 = flag) with
  | some (name, _) => name
  | none => ""

/-- What an argument is. A `cluster` is `-h` with more letters behind it, and `mark` is `--`. -/
inductive Argument
  | plain (text : String)
  | option (flag : Flag) (value : Option String)
  | cluster (letters : List Char)
  | unknown (text : String)
  | mark
  deriving DecidableEq, Repr

def splitEqual (cs : List Char) : List Char × Option (List Char) :=
  (cs.takeWhile (· ≠ '='), (cs.dropWhile (· ≠ '=')).tail?)

namespace Argument

def valued (name : List Char) (flag : Flag) (value : List Char) : Argument :=
  if name = ['-', 'h'] then .cluster value else .option flag (some (String.ofList value))

/-- The options that an argument may mean if it is none as it stands: those whose names it begins,
or the one with a single letter that its value follows directly. -/
def candidates : List Char → List Argument
  | '-' :: '-' :: cs =>
    let (name, value) := splitEqual ('-' :: '-' :: cs)
    flagNames.filterMap fun (n, flag) =>
      if name.isPrefixOf n.toList then some (.option flag (value.map String.ofList)) else none
  | '-' :: c :: value =>
    flagNames.filterMap fun (n, flag) =>
      if n.toList = ['-', c] then some (valued ['-', c] flag value) else none
  | _ => []

def assigned? (cs : List Char) : Option Argument :=
  match splitEqual cs with
  | (name, some value) =>
    (flagNames.lookup (String.ofList name)).map fun flag => valued name flag value
  | (_, none) => none

def ofDashed (text : String) : Except UsageError Argument :=
  match assigned? text.toList, candidates text.toList with
  | some found, _ => .ok found
  | none, [found] => .ok found
  | none, _ :: _ => .error (.ambiguousOption text)
  | none, [] =>
    if Text.isNegativeNumber text || text.toList.contains ' ' then .ok (.plain text)
    else .ok (.unknown text)

def ofText (text : String) : Except UsageError Argument :=
  if text.toList.head? ≠ some '-' ∨ text = "-" then .ok (.plain text)
  else
    match flagNames.lookup text with
    | some flag => .ok (.option flag none)
    | none => ofDashed text

/-- All arguments are told apart before any is acted upon, so one that is ambiguous is refused
whatever stands before it. -/
def ofTexts : List String → Except UsageError (List Argument)
  | [] => .ok []
  | text :: rest =>
    if text = "--" then .ok (.mark :: rest.map .plain)
    else do return (← ofText text) :: (← ofTexts rest)

end Argument

end Formulae.CommandLine
