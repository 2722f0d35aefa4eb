import DocSearch.Json.Basic
import DocSearch.Query.InvalidArgument

/-!
# Predicates and query states

A predicate is one test of a column, or a nested query that counts as one test. A query state is what
a caller has declared so far: its settings and its predicates, in the order of their declaration.
-/

namespace DocSearch

/-- All of a query state but its predicates. Sorts and aggregations are lists of a name and a
specification, each name at most once. -/
structure Settings where
  index : Option String := none
  documentType : Option String := none
  limit : Option UInt64 := none
  offset : Option UInt64 := none
  columns : List String := []
  sorts : List (String × Json) := []
  aggregations : List (String × Json) := []
  scroll : Option String := none
  deriving Inhabited

/-- A predicate. A nested query keeps its settings, though only its predicates are compiled. -/
inductive Predicate where
  | basic (column : String) (leaf : LeafKind) (operator : Option Operator) (value : Json)
      (joined : Conjunction)
  | nested (settings : Settings) (members : List Predicate) (joined : Conjunction)

/-- A query under construction. -/
structure QueryState extends Settings where
  predicates : List Predicate := []
  deriving Inhabited

namespace Predicate

/-- How the predicate joins the ones before it. -/
def joined : Predicate → Conjunction
  | basic _ _ _ _ joined => joined
  | nested _ _ joined => joined

def isOr (p : Predicate) : Bool := p.joined = .or

/-- Whether the predicate holds where its clause does not. -/
def isNegated : Predicate → Bool
  | basic _ _ operator _ _ => operator = some .ne
  | nested .. => false

def isNested : Predicate → Bool
  | basic .. => false
  | nested .. => true

def column? : Predicate → Option String
  | basic column _ _ _ _ => some column
  | nested .. => none

/-- A query state as one predicate. -/
def ofQuery (inner : QueryState) (joined : Conjunction) : Predicate :=
  nested inner.toSettings inner.predicates joined

/-- The bounds object of an inclusive range. -/
def bounds (low high : Json) : Json := .object [("gte", low), ("lte", high)]

/-- The test that a column, an operator and a value stand for. An operator that bounds its column on
one side makes it a range, and the two values of a list on a range are its inclusive bounds. -/
def comparison (column : String) (operator : Option Operator) (value : Json) (leaf : LeafKind)
    (joined : Conjunction) : Except InvalidArgument Predicate :=
  let leaf := if operator.any Operator.isBound then .range else leaf
  match leaf, value with
  | .range, .array [low, high] => .ok (.basic column .range operator (bounds low high) joined)
  | .range, .array _ => .error (.boundsCount column)
  | leaf, value => .ok (.basic column leaf operator value joined)

end Predicate

end DocSearch
