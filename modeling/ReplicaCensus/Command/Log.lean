/-!
# Log lines -- what a program reports while it runs

Two severities are in use: one for what went as planned and one for what did not.
-/

namespace ReplicaCensus.Command

/-- How serious a line is. -/
inductive Severity where
  | info
  | error
  deriving DecidableEq, Repr

namespace Severity

def label : Severity → String
  | info => "INFO"
  | error => "ERROR"

end Severity

/-- A line of a log. -/
structure LogLine where
  severity : Severity
  text : String
  deriving DecidableEq, Repr

namespace LogLine

def info (text : String) : LogLine := ⟨.info, text⟩

def error (text : String) : LogLine := ⟨.error, text⟩

end LogLine

end ReplicaCensus.Command
