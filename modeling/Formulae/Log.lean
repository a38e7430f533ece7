import Formulae.Context

namespace Formulae

namespace Log

inductive Level
  | debug | info | warning | error | critical
  deriving DecidableEq, Repr

def Level.rank : Level → Nat
  | .debug => 10
  | .info => 20
  | .warning => 30
  | .error => 40
  | .critical => 50

def Level.name : Level → String
  | .debug => "debug"
  | .info => "info"
  | .warning => "warning"
  | .error => "error"
  | .critical => "critical"

def Level.ofName? (name : String) : Option Level :=
  [Level.debug, .info, .warning, .error, .critical].find? (·.name = name)

inductive Logger
  | pipeline | session | commandLine
  deriving DecidableEq, Repr

def Logger.name : Logger → String
  | .pipeline => "FormulaPipeline"
  | .session => "Formula"
  | .commandLine => "FormulaCLI"

structure Record where
  logger : Logger
  message : String
  deriving DecidableEq, Repr

def Record.level (_ : Record) : Level := .debug

def Record.line (r : Record) : String := s!"{r.logger.name} DEBUG {r.message}"

def Record.entry (r : Record) : String := s!"{r.logger.name} - DEBUG - {r.message}"

end Log

structure Journal where
  records : List Log.Record := []
  requests : List Request := []
  deriving DecidableEq

/-- Computations that keep a journal, also if they fail. -/
abbrev Run := EStateM Fault Journal

namespace Run

def log (logger : Log.Logger) (message : String) : Run Unit :=
  modify fun j => { j with records := j.records ++ [⟨logger, message⟩] }

def outcome (x : Run α) : Except Fault α × Journal :=
  match x {} with
  | .ok a j => (.ok a, j)
  | .error fault j => (.error fault, j)

end Run

end Formulae
