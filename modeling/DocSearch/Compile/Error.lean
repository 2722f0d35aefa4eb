/-!
# Compile errors

Why a query state does not compile to a request.
-/

namespace DocSearch

/-- Why a test has no clause. -/
inductive ClauseFault where
  /-- A range whose operator bounds nothing and whose value is no bounds object. -/
  | boundless
  /-- A wildcard whose value is neither a text nor a number. -/
  | needleless
  /-- A fault in the words of a caller. -/
  | other (reason : String)
  deriving DecidableEq

namespace ClauseFault

def reason : ClauseFault → String
  | boundless => "range needs a bound operator or a bounds object"
  | needleless => "wildcard needs a string or number"
  | other reason => reason

end ClauseFault

/-- Why a query state has no request. -/
inductive CompileError where
  | missingIndex
  | invalidPredicate (column : String) (fault : ClauseFault)
  deriving DecidableEq

namespace CompileError

def code : CompileError → String
  | missingIndex => "ELASTIC_MISSING_INDEX"
  | invalidPredicate .. => "ELASTIC_INVALID_PREDICATE"

def message : CompileError → String
  | missingIndex => "Missing index: every operation requires a target index"
  | invalidPredicate column fault => "Invalid predicate on '" ++ column ++ "': " ++ fault.reason

end CompileError

end DocSearch
