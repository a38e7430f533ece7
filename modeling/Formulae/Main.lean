import Formulae.CommandLine

namespace Formulae.Program

def usage : String :=
  "usage: formula [-h] [-f FILE] [--tokens | --ast] [--var NAME=VALUE] [--max-parse-depth N]\n" ++
    "               [--max-eval-depth N] [--log-level LEVEL] [--log-file FILE] [formula]"

def fileError (name : String) : IO.Error → String
  | .noFileOrDirectory .. => s!"[Errno 2] No such file or directory: {Text.quoted name}"
  | .inappropriateType .. => s!"[Errno 21] Is a directory: {Text.quoted name}"
  | e => toString e

partial def readAll (stream : IO.FS.Stream) (bytes : ByteArray) : IO ByteArray := do
  let piece ← stream.read 65536
  if piece.isEmpty then return bytes else readAll stream (bytes ++ piece)

def stamped (record : Log.Record) : IO String := do
  let now ← IO.monoMsNow
  return s!"{now} - {record.entry}\n"

def console : CommandLine.Console IO where
  input := do return (← readAll (← IO.getStdin) .empty).toList
  file name := do
    try return .ok (← IO.FS.readBinFile name).toList
    catch e => return .error (fileError name e)
  print := IO.println
  complain := IO.eprintln
  openLog name := do let _ ← IO.FS.Handle.mk name .append
  record file record := do
    match file with
    | none => IO.eprint (← stamped record)
    | some name => (← IO.FS.Handle.mk name .append).putStr (← stamped record)

def start (arguments : List String) : IO UInt32 := do
  match CommandLine.Options.ofArguments arguments with
  | .ok (some options) =>
    match ← CommandLine.run console options with
    | .ok code => return code
    | .error e =>
      IO.eprintln e.text
      return 1
  | .ok none =>
    IO.println usage
    return 0
  | .error e =>
    IO.eprintln s!"{usage}\nformula: error: {e.message}"
    return 2

end Formulae.Program

def main (arguments : List String) : IO UInt32 := Formulae.Program.start arguments
