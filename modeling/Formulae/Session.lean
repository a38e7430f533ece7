import Formulae.Evaluation
import Formulae.Lexing
import Formulae.Parser
import Formulae.Pipeline

namespace Formulae

structure Session where
  maxParseDepth : Int := 32
  maxEvalDepth : Int := 200
  deriving DecidableEq, Repr

namespace Session

def tokenize (text : String) : Run (List Token) := do
  match lex text with
  | .ok tokens =>
    Run.log .session s!"lexed {tokens.length} tokens"
    pure tokens
  | .error e => throw (.diagnostic e.toDiagnostic)

def parseTokens (s : Session) (tokens : List Token) : Run Expr :=
  match parse s.maxParseDepth tokens with
  | .ok e => pure e
  | .error e => throw (.diagnostic e.toDiagnostic)

def interpret (s : Session) (context : Context) (e : Expr) : Run Value := do
  let (result, requests) := e.evaluate context s.maxEvalDepth
  modify fun j => { j with requests := j.requests ++ requests }
  match result with
  | .ok v => pure v
  | .error d => throw (.diagnostic d)

def parsingWith (parse : List Token → Run Expr) : Pipeline String Expr :=
  Pipeline.empty.append ⟨"Formula.tokenize", tokenize⟩
    |>.append ⟨"Formula.parse_tokens", parse⟩

def evaluatingWith (parse : List Token → Run Expr) (interpret : Expr → Run Value) :
    Pipeline String Value :=
  (parsingWith parse).append ⟨"Formula.evaluate.<locals>.<lambda>", interpret⟩

def parsing (s : Session) : Pipeline String Expr := parsingWith s.parseTokens

def evaluating (s : Session) (context : Context) : Pipeline String Value :=
  evaluatingWith s.parseTokens (s.interpret context)

def reporting (p : Pipeline String Value) (text : String) : Run Value := do
  let v ← p.run text
  Run.log .session s!"evaluated to {v.kind.name}"
  pure v

def parse (s : Session) (text : String) : Run Expr := s.parsing.run text

def evaluate (s : Session) (context : Context) (text : String) : Run Value :=
  reporting (s.evaluating context) text

end Session

end Formulae
