import DocSearch.Compile.BoolQuery
import DocSearch.Query.State
import DocSearch.Request

/-!
# Requests of a query state

`resolve` gives every attribute that is set its parameter in one flat request, which needs an index. A
search moves all but its target into the body; a write keeps nothing but the target, though a predicate
that does not compile rejects it all the same.
-/

namespace DocSearch.Compile

/-- The parameter that holds an attribute. -/
def parameter : Attribute → String
  | .columns => "_source"
  | .wheres => "query"
  | .aggregations => "aggs"
  | .orders => "sort"
  | .limit => "size"
  | .offset => "from"
  | .index => "index"
  | .documentType => "type"
  | .scroll => "scroll"

/-- The value of an attribute's parameter. -/
def parameterValue (q : QueryState) : Attribute → Except CompileError Json
  | .columns => .ok (.texts q.columns)
  | .wheres => query q
  | .aggregations => .ok (.object (Json.Fields.ofList q.aggregations))
  | .orders => .ok (.array (q.sorts.map fun sort => .single sort.1 sort.2))
  | .limit => .ok (.ofCount? q.limit)
  | .offset => .ok (.ofCount? q.offset)
  | .index => .ok (.ofText? q.index)
  | .documentType => .ok (.ofText? q.documentType)
  | .scroll => .ok (.ofText? q.scroll)

/-- Adds the parameters of attributes to a request. -/
def addParameters (q : QueryState) : List Attribute → Request → Except CompileError Request
  | [], request => .ok request
  | a :: rest, request => do
    let value ← parameterValue q a
    addParameters q rest (request.insert (parameter a) value)

/-- The flat request of all attributes that are set. -/
def resolve (q : QueryState) : Except CompileError Request := do
  let request ← addParameters q (Attribute.all.filter q.isSet) {}
  if request.contains "index" then return request else throw .missingIndex

/-- The part of a request that says what it is for. -/
def targetOf (request : Request) : Request :=
  (({} : Request).insert? "index" (request.get? "index")).insert? "type" (request.get? "type")

def search (q : QueryState) : Except CompileError Request := do
  let request ← resolve q
  return (targetOf request).insert "body" ((request.erase "index").erase "type").toJson

/-- The target of a query state, once all of it has compiled. -/
def target (q : QueryState) : Except CompileError Request := (resolve q).map targetOf

def create (q : QueryState) (id : Option String) (document : Json) : Except CompileError Request := do
  return ((← target q).insert? "id" (id.map .text)).insert "body" document

/-- The request that changes a document in part. -/
def update (q : QueryState) (id : String) (changes : Json) : Except CompileError Request := do
  return ((← target q).insert "id" (.text id)).insert "body" (.single "doc" changes)

def delete (q : QueryState) (id : String) : Except CompileError Request := do
  return (← target q).insert "id" (.text id)

/-- The request that deletes all documents. -/
def flush (q : QueryState) : Except CompileError Request := do
  return (← target q).insert "body" (.single "query" matchAll)

end DocSearch.Compile
