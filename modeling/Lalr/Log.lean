/-!
# Lalr.Log

Diagnostics: lines with a severity.  A threshold decides which of them are kept.
-/

namespace Lalr

/-- How much a line of diagnostics matters. -/
inductive Severity where
  | debug
  | info
  | warning
  | error
  | critical
deriving DecidableEq, Repr

namespace Severity

/-- The usual number of a severity; more severe is greater. -/
def rank : Severity → Nat
  | .debug => 10
  | .info => 20
  | .warning => 30
  | .error => 40
  | .critical => 50

/-- The name of a severity. -/
def name : Severity → String
  | .debug => "DEBUG"
  | .info => "INFO"
  | .warning => "WARNING"
  | .error => "ERROR"
  | .critical => "CRITICAL"

end Severity

/-- A line of diagnostics. -/
structure LogLine where
  severity : Severity
  message : String
deriving DecidableEq, Repr

/-- The lines that reach a threshold. -/
def LogLine.atLeast (threshold : Nat) (lines : List LogLine) : List LogLine :=
  lines.filter (threshold ≤ ·.severity.rank)

end Lalr
