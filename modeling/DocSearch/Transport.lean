import DocSearch.Request

/-!
# The transport

What stands between a client and the engine: the operations that a request is sent to, and what comes
back.
-/

namespace DocSearch

inductive Operation where
  | search
  | create
  | update
  | delete
  | deleteByQuery
  deriving DecidableEq

namespace Operation

def name : Operation → String
  | search => "search"
  | create => "create"
  | update => "update"
  | delete => "delete"
  | deleteByQuery => "delete_by_query"

end Operation

/-- A failure that a transport reports. -/
inductive TransportError where
  | conflict (reason : String)
  | notFound (reason : String)
  | failed (reason : String)
  deriving DecidableEq

namespace TransportError

def code : TransportError → String
  | conflict _ => "ELASTIC_TRANSPORT_CONFLICT"
  | notFound _ => "ELASTIC_TRANSPORT_NOT_FOUND"
  | failed _ => "ELASTIC_TRANSPORT_FAILED"

def message : TransportError → String
  | conflict reason => "Conflict: " ++ reason
  | notFound reason => "Not found: " ++ reason
  | failed reason => "Transport failed: " ++ reason

end TransportError

/-- What comes back for one request. -/
structure Reply where
  answer : Except TransportError Json
  /-- The milliseconds that the call took. -/
  elapsed : Nat := 0

end DocSearch
