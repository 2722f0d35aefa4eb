import DocSearch.Json.Printer

/-!
# Requests

A request is a set of named parameters. Its text lists them in the order of their names, so that equal
requests have equal texts.
-/

namespace DocSearch

/-- A request to the engine. -/
structure Request where
  params : Json.Fields := []

namespace Request

def insert (r : Request) (name : String) (value : Json) : Request :=
  ⟨Json.Fields.insert name value r.params⟩

def insert? (r : Request) (name : String) (value : Option Json) : Request :=
  value.elim r (r.insert name)

def erase (r : Request) (name : String) : Request := ⟨Json.Fields.erase name r.params⟩

def get? (r : Request) (name : String) : Option Json := Json.Fields.get? r.params name

def contains (r : Request) (name : String) : Bool := (r.get? name).isSome

def index? (r : Request) : Option String := (r.get? "index").bind Json.asText?

def documentType? (r : Request) : Option String := (r.get? "type").bind Json.asText?

def id? (r : Request) : Option String := (r.get? "id").bind Json.asText?

/-- What the request sends. -/
def body? (r : Request) : Option Json := r.get? "body"

def names (r : Request) : List String := r.params.map (·.1)

def isEmpty (r : Request) : Bool := r.params.isEmpty

def toJson (r : Request) : Json := .object r.params

/-- The text of a request without blanks. -/
def compact (r : Request) : String := r.toJson.compact

/-- The text of a request over several lines. -/
def pretty (r : Request) : String := r.toJson.pretty

end Request

end DocSearch
