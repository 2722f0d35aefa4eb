import DocSearch.Log.Entry

/-!
# Scopes

A scope frames what one operation logs: an entry when it begins, and one that tells how it ended. The
fields of a scope stand on all of its entries.
-/

namespace DocSearch.Log

/-- The frame of an operation. -/
structure Scope where
  name : String
  fields : List (String × String) := []

namespace Scope

def entry (scope : Scope) (severity : Severity) (ending : String)
    (extra : List (String × String)) : Entry :=
  ⟨.stdout, severity, scope.name ++ "_" ++ ending, scope.fields ++ extra⟩

def begun (scope : Scope) : Entry := scope.entry .trace "BEGIN" []

/-- The entry of a scope that succeeded after some milliseconds. -/
def completed (scope : Scope) (elapsed : Nat) (extra : List (String × String)) : Entry :=
  scope.entry .info "COMPLETE" (("elapsed_ms", String.ofList (Nat.toDigits 10 elapsed)) :: extra)

def failed (scope : Scope) (reason : String) : Entry :=
  scope.entry .warn "FAILED" [("reason", reason)]

/-- The entry of a scope that was left without an end. -/
def abandoned (scope : Scope) : Entry :=
  scope.entry .warn "INCOMPLETE" [("reason", "scope dropped without completion")]

end Scope

end DocSearch.Log
