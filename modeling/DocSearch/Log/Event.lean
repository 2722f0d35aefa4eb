import DocSearch.Log.Entry

/-!
# Events

The events that the library logs. An event decides the severity of its entry.
-/

namespace DocSearch.Log

inductive Event where
  | configLoaded
  | requestCompiled
  | requestRejected
  | requestDispatched
  | transportFailed
  | searchCompleted
  | documentCreated
  | documentUpdated
  | documentDeleted
  | indexFlushed
  | unexpectedResult
  | stateReset
  deriving DecidableEq

namespace Event

def all : List Event :=
  [configLoaded, requestCompiled, requestRejected, requestDispatched, transportFailed,
    searchCompleted, documentCreated, documentUpdated, documentDeleted, indexFlushed,
    unexpectedResult, stateReset]

def name : Event → String
  | configLoaded => "CONFIG_LOADED"
  | requestCompiled => "REQUEST_COMPILED"
  | requestRejected => "REQUEST_REJECTED"
  | requestDispatched => "REQUEST_DISPATCHED"
  | transportFailed => "TRANSPORT_FAILED"
  | searchCompleted => "SEARCH_COMPLETED"
  | documentCreated => "DOCUMENT_CREATED"
  | documentUpdated => "DOCUMENT_UPDATED"
  | documentDeleted => "DOCUMENT_DELETED"
  | indexFlushed => "INDEX_FLUSHED"
  | unexpectedResult => "UNEXPECTED_RESULT"
  | stateReset => "STATE_RESET"

def ofName? (name : String) : Option Event := all.find? (fun event => event.name = name)

def severity : Event → Severity
  | requestCompiled | requestDispatched | stateReset => .trace
  | requestRejected | transportFailed => .warn
  | unexpectedResult => .error
  | configLoaded | searchCompleted | documentCreated | documentUpdated | documentDeleted
  | indexFlushed => .info

def entry (event : Event) (fields : List (String × String)) : Entry :=
  .ofSeverity event.severity event.name fields

end Event

end DocSearch.Log
