import DocSearch.Query.Vocabulary

/-!
# Rejected arguments

What is wrong with an argument that a query or a client does not accept, and how it is reported. The
look-ups that end with `of` reject a name outside its vocabulary.
-/

namespace DocSearch

inductive InvalidArgument where
  /-- A text that names nothing. -/
  | unknown (text : String)
  /-- A value of a shape that the attribute does not take. -/
  | unsupported (a : Attribute)
  /-- A predicate description without a text as its column. -/
  | missingColumn
  /-- A list of range bounds that are not two. -/
  | boundsCount (column : String)
  | documentNotObject
  | pageZero
  | perPageZero
  /-- A page that starts beyond the range of offsets. -/
  | windowOverflow
  deriving DecidableEq

namespace InvalidArgument

/-- What the message puts between its brackets. -/
def subject : InvalidArgument → String
  | unknown text => text
  | unsupported a => a.name ++ " has an unsupported value"
  | missingColumn => "predicate is missing a column"
  | boundsCount column => "range bounds for '" ++ column ++ "' must have exactly two values"
  | documentNotObject => "create expects a JSON object"
  | pageZero => "page must start at 1"
  | perPageZero => "per_page must be > 0"
  | windowOverflow => "page window overflows"

def message (e : InvalidArgument) : String := "Passed parameter [" ++ e.subject ++ "] is invalid"

/-- The result of a look-up of `text`. -/
def known {α : Type} (text : String) (found : Option α) : Except InvalidArgument α :=
  found.elim (.error (unknown text)) .ok

end InvalidArgument

namespace LeafKind

def of (name : String) : Except InvalidArgument LeafKind :=
  InvalidArgument.known name (ofName? name)

end LeafKind

namespace Operator

def of (symbol : String) : Except InvalidArgument Operator :=
  InvalidArgument.known symbol (ofSymbol? symbol)

end Operator

namespace Conjunction

def of (name : String) : Except InvalidArgument Conjunction :=
  InvalidArgument.known name (ofName? name)

end Conjunction

namespace SortDirection

def of (name : String) : Except InvalidArgument SortDirection :=
  InvalidArgument.known name (ofName? name)

end SortDirection

namespace AggregationKind

def of (name : String) : Except InvalidArgument AggregationKind :=
  InvalidArgument.known name (ofName? name)

end AggregationKind

namespace Attribute

def of (name : String) : Except InvalidArgument Attribute :=
  InvalidArgument.known name (ofName? name)

end Attribute

end DocSearch
