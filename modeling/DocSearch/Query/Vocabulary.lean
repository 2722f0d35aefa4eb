/-!
# The words of a query

The closed vocabularies of the query language. Each has a list `all` of its members, a name for every
member, and a look-up by name.
-/

namespace DocSearch

/-- What a predicate asks of its column. -/
inductive LeafKind where
  | term
  | terms
  | fullText
  | phrase
  | range
  | multiMatch
  | wildcard
  | exists
  deriving DecidableEq

namespace LeafKind

def all : List LeafKind := [term, terms, fullText, phrase, range, multiMatch, wildcard, .exists]

/-- The key of a clause of this kind. -/
def name : LeafKind → String
  | term => "term"
  | terms => "terms"
  | fullText => "match"
  | phrase => "match_phrase"
  | range => "range"
  | multiMatch => "multi_match"
  | wildcard => "wildcard"
  | .exists => "exists"

def ofName? (name : String) : Option LeafKind := all.find? (fun kind => kind.name = name)

end LeafKind

/-- How a predicate compares its column with its value. -/
inductive Operator where
  | eq
  | gt
  | gte
  | lt
  | lte
  | ne
  deriving DecidableEq

namespace Operator

def all : List Operator := [eq, gt, gte, lt, lte, ne]

/-- The name under which a range clause holds a bound. -/
def name : Operator → String
  | eq => "eq"
  | gt => "gt"
  | gte => "gte"
  | lt => "lt"
  | lte => "lte"
  | ne => "ne"

/-- The symbol that callers write. -/
def symbol : Operator → String
  | eq => "="
  | gt => ">"
  | gte => ">="
  | lt => "<"
  | lte => "<="
  | ne => "!="

def ofSymbol? (symbol : String) : Option Operator :=
  all.find? (fun operator => operator.symbol = symbol)

/-- Whether the operator bounds its column on one side. -/
def isBound : Operator → Bool
  | gt | gte | lt | lte => true
  | eq | ne => false

end Operator

/-- How a predicate joins the ones before it. -/
inductive Conjunction where
  | and
  | or
  deriving DecidableEq

namespace Conjunction

def all : List Conjunction := [.and, .or]

def name : Conjunction → String
  | .and => "and"
  | .or => "or"

def ofName? (name : String) : Option Conjunction := all.find? (fun joined => joined.name = name)

end Conjunction

inductive SortDirection where
  | ascending
  | descending
  deriving DecidableEq

namespace SortDirection

def all : List SortDirection := [ascending, descending]

def name : SortDirection → String
  | ascending => "asc"
  | descending => "desc"

/-- The direction of a name in which ASCII letters may be of either case. -/
def ofName? (name : String) : Option SortDirection :=
  all.find? (fun direction => direction.name = name.map Char.toLower)

end SortDirection

/-- A summary over the values of a field. -/
inductive AggregationKind where
  | terms
  | avg
  | sum
  | min
  | max
  | stats
  | cardinality
  | valueCount
  deriving DecidableEq

namespace AggregationKind

def all : List AggregationKind := [terms, avg, sum, min, max, stats, cardinality, valueCount]

def name : AggregationKind → String
  | terms => "terms"
  | avg => "avg"
  | sum => "sum"
  | min => "min"
  | max => "max"
  | stats => "stats"
  | cardinality => "cardinality"
  | valueCount => "value_count"

def ofName? (name : String) : Option AggregationKind := all.find? (fun kind => kind.name = name)

end AggregationKind

/-- The nine attributes of a query. -/
inductive Attribute where
  | index
  | documentType
  | limit
  | offset
  | columns
  | wheres
  | orders
  | aggregations
  | scroll
  deriving DecidableEq

namespace Attribute

def all : List Attribute :=
  [index, documentType, limit, offset, columns, wheres, orders, aggregations, scroll]

/-- The name under which a description sets the attribute. -/
def name : Attribute → String
  | index => "index"
  | documentType => "type"
  | limit => "limit"
  | offset => "offset"
  | columns => "columns"
  | wheres => "wheres"
  | orders => "orders"
  | aggregations => "aggs"
  | scroll => "scroll"

def ofName? (name : String) : Option Attribute := all.find? (fun a => a.name = name)

end Attribute

end DocSearch
