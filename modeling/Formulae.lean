import Formulae.Bindings
import Formulae.CommandLine
import Formulae.CommandLine.Argument
import Formulae.CommandLine.Options
import Formulae.Context
import Formulae.Cursor
import Formulae.Decimal.Numeral
import Formulae.Decimal.Shortest
import Formulae.Diagnostic
import Formulae.Double
import Formulae.Double.Arithmetic
import Formulae.EvalError
import Formulae.Evaluation
import Formulae.Expr
import Formulae.Lexeme
import Formulae.Lexing
import Formulae.Location
import Formulae.Log
import Formulae.Main
import Formulae.Notice
import Formulae.ParseError
import Formulae.Parser
import Formulae.Pipeline
import Formulae.Proofs.Alike
import Formulae.Proofs.Conversion
import Formulae.Proofs.Cursor
import Formulae.Proofs.Decimal.Numerals
import Formulae.Proofs.Decimal.Printing
import Formulae.Proofs.Decimal.Shortest
import Formulae.Proofs.Decimal.Text
import Formulae.Proofs.Decimal.Value
import Formulae.Proofs.Description
import Formulae.Proofs.Double.Bits
import Formulae.Proofs.Double.Exact
import Formulae.Proofs.Double.Nearest
import Formulae.Proofs.Double.Power
import Formulae.Proofs.Double.Remainder
import Formulae.Proofs.Double.Rounding
import Formulae.Proofs.Evaluation.DepthLimit
import Formulae.Proofs.Evaluation.Kinds
import Formulae.Proofs.Evaluation.Layout
import Formulae.Proofs.Evaluation.Levels
import Formulae.Proofs.Evaluation.Nesting
import Formulae.Proofs.Evaluation.Order
import Formulae.Proofs.Evaluation.Plain
import Formulae.Proofs.Evaluation.Refinement
import Formulae.Proofs.Evaluation.Refusals
import Formulae.Proofs.Evaluation.Requests
import Formulae.Proofs.Evaluation.Threshold
import Formulae.Proofs.Evaluation.Visits
import Formulae.Proofs.Grammar
import Formulae.Proofs.Integers
import Formulae.Proofs.Layout
import Formulae.Proofs.Lexing.Extents
import Formulae.Proofs.Lexing.Languages
import Formulae.Proofs.Lexing.Lines
import Formulae.Proofs.Lexing.Munch
import Formulae.Proofs.Lexing.Offsets
import Formulae.Proofs.Lexing.Places
import Formulae.Proofs.Lexing.Spacing
import Formulae.Proofs.Literals
import Formulae.Proofs.Nodes
import Formulae.Proofs.Notices
import Formulae.Proofs.Parsing.Acceptance
import Formulae.Proofs.Parsing.Blame
import Formulae.Proofs.Parsing.Boundaries
import Formulae.Proofs.Parsing.Completeness
import Formulae.Proofs.Parsing.Compositional
import Formulae.Proofs.Parsing.Constructs
import Formulae.Proofs.Parsing.CorrectPrefix
import Formulae.Proofs.Parsing.Innermost
import Formulae.Proofs.Parsing.Layout
import Formulae.Proofs.Parsing.Levels
import Formulae.Proofs.Parsing.Lookahead
import Formulae.Proofs.Parsing.Phrases
import Formulae.Proofs.Parsing.Predictive
import Formulae.Proofs.Parsing.Reading
import Formulae.Proofs.Parsing.Reuse
import Formulae.Proofs.Parsing.Soundness
import Formulae.Proofs.Parsing.Steps
import Formulae.Proofs.Parsing.Threshold
import Formulae.Proofs.Parsing.Traces
import Formulae.Proofs.Parsing.Trees
import Formulae.Proofs.Parsing.Unambiguity
import Formulae.Proofs.Printing
import Formulae.Proofs.Quotes
import Formulae.Proofs.Rendering
import Formulae.Proofs.Reports
import Formulae.Proofs.Sequences
import Formulae.Proofs.Session
import Formulae.Proofs.Sexp
import Formulae.Proofs.Simulation
import Formulae.Proofs.Source
import Formulae.Proofs.WellFormed
import Formulae.Runs
import Formulae.Session
import Formulae.Source
import Formulae.Text.Integer
import Formulae.Text.Printable
import Formulae.Text.Quoted
import Formulae.Text.Utf8
import Formulae.Token
import Formulae.Value
import Formulae.Proofs.Lexing.Scanning
