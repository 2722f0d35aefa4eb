/-!
# Severities

How grave a log entry is, from trace to fatal.
-/

namespace DocSearch.Log

inductive Severity where
  | trace
  | info
  | warn
  | error
  | fatal
  deriving DecidableEq

namespace Severity

def all : List Severity := [trace, info, warn, error, fatal]

def name : Severity → String
  | trace => "TRACE"
  | info => "INFO"
  | warn => "WARN"
  | error => "ERROR"
  | fatal => "FATAL"

/-- The place of a severity, from zero. -/
def rank : Severity → Nat
  | trace => 0
  | info => 1
  | warn => 2
  | error => 3
  | fatal => 4

/-- The severity of a name in which ASCII letters may be of either case. -/
def ofName? (name : String) : Option Severity :=
  all.find? (fun severity => severity.name = name.map Char.toUpper)

/-- What is said of a name that is no severity. -/
def unknownMessage (name : String) : String :=
  "unknown log level '" ++ name.map Char.toLower ++ "'"

/-- Whether entries of a severity are written when `minimum` is the least that is. -/
def admits (minimum severity : Severity) : Bool := minimum.rank ≤ severity.rank

end Severity

end DocSearch.Log
