import DocSearch.Query.Predicate

/-!
# Building a query state

Declarations on a query state. A column is kept once, where it was first declared; a sort or an
aggregation that is declared again keeps its place and takes the new specification. `reset` keeps the
target of a query and forgets the rest.
-/

namespace DocSearch

/-- Gives `key` the value, in place if the key is there and at the end if not. -/
def upsert (key : String) (value : Json) : List (String × Json) → List (String × Json)
  | [] => [(key, value)]
  | (k, v) :: rest => if k = key then (k, value) :: rest else (k, v) :: upsert key value rest

def SortDirection.spec (direction : SortDirection) : Json := .single "order" (.text direction.name)

def AggregationKind.spec (kind : AggregationKind) (field : String) : Json :=
  .single kind.name (.single "field" (.text field))

namespace QueryState

/-- The empty query state of an index. -/
def forIndex (index : String) : QueryState := { index := some index }

def setIndex (q : QueryState) (index : String) : QueryState := { q with index := some index }

def setDocumentType (q : QueryState) (documentType : String) : QueryState :=
  { q with documentType := some documentType }

def setLimit (q : QueryState) (limit : UInt64) : QueryState := { q with limit := some limit }

def setOffset (q : QueryState) (offset : UInt64) : QueryState := { q with offset := some offset }

def setScroll (q : QueryState) (token : String) : QueryState := { q with scroll := some token }

def addColumn (q : QueryState) (column : String) : QueryState :=
  if column ∈ q.columns then q else { q with columns := q.columns ++ [column] }

def addColumns (q : QueryState) (columns : List String) : QueryState := columns.foldl addColumn q

def addSort (q : QueryState) (field : String) (spec : Json) : QueryState :=
  { q with sorts := upsert field spec q.sorts }

def addAggregation (q : QueryState) (name : String) (spec : Json) : QueryState :=
  { q with aggregations := upsert name spec q.aggregations }

def filter (q : QueryState) (p : Predicate) : QueryState :=
  { q with predicates := q.predicates ++ [p] }

/-- Whether an attribute has a value that says something: a text or a list that is not empty, a number
above zero. -/
def isSet (q : QueryState) : Attribute → Bool
  | .index => q.index.any (· ≠ "")
  | .documentType => q.documentType.any (· ≠ "")
  | .limit => q.limit.any (· ≠ 0)
  | .offset => q.offset.any (· ≠ 0)
  | .columns => !q.columns.isEmpty
  | .wheres => !q.predicates.isEmpty
  | .orders => !q.sorts.isEmpty
  | .aggregations => !q.aggregations.isEmpty
  | .scroll => q.scroll.any (· ≠ "")

/-- The empty query state of the same index and document type. -/
def reset (q : QueryState) : QueryState := { index := q.index, documentType := q.documentType }

end QueryState

end DocSearch
