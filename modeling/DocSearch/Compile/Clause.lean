import DocSearch.Compile.Error
import DocSearch.Query.Predicate
import DocSearch.Text.Pieces

/-!
# Clauses

The clause of one test. A column names the path to an inner object with `@`: each `@` wraps the clause
in an envelope for the path before it, and the clause itself is for the column with dots in their place.
-/

namespace DocSearch.Compile

/-- Separates the path of an inner object from its field. -/
def pathMark : Char := '@'

/-- Separates the fields of a column that names several. -/
def fieldMark : Char := ','

/-- The bounds of a range. A bounds object stands for itself; any other value is the bound that the
operator names, and so is an object with less than two fields. -/
def rangeBody (column : String) (operator : Option Operator) (value : Json) :
    Except CompileError Json :=
  match operator.filter Operator.isBound, value with
  | some _, .object (first :: second :: rest) => .ok (.object (first :: second :: rest))
  | some bound, value => .ok (.single bound.name value)
  | none, .object fields => .ok (.object fields)
  | none, _ => .error (.invalidPredicate column .boundless)

/-- The pattern that finds a text anywhere. -/
def containing (needle : String) : String := "*" ++ needle ++ "*"

/-- The clause of a test on a column without path marks. -/
def plainClause (leaf : LeafKind) (column : String) (value : Json) (operator : Option Operator) :
    Except CompileError Json :=
  match leaf with
  | .term | .terms | .fullText | .phrase => .ok (.single leaf.name (.single column value))
  | .range => do return .single "range" (.single column (← rangeBody column operator value))
  | .multiMatch =>
    .ok (.single "multi_match" (.object
      [("fields", .texts (Text.trimmedPieces fieldMark column)), ("query", value),
        ("type", .text "phrase")]))
  | .wildcard =>
    match value.nameText? with
    | some needle => .ok (.single "wildcard" (.single column (.text (containing needle))))
    | none => .error (.invalidPredicate column .needleless)
  | .exists => .ok (.single "exists" (.single "field" (.text column)))

/-- Scopes a clause to the inner object at a path. -/
def envelope (path : String) (clause : Json) : Json :=
  .single "nested" (.object [("path", .text path), ("query", clause)])

/-- The clause under a path, which the remaining steps extend: one envelope a step. -/
def pathClause (clause : String → Except CompileError Json) (path : List Char) :
    List (List Char) → Except CompileError Json
  | [] => clause (String.ofList path)
  | step :: steps => do
    return envelope (String.ofList path) (← pathClause clause (path ++ '.' :: step) steps)

def clause (leaf : LeafKind) (column : String) (value : Json) (operator : Option Operator) :
    Except CompileError Json :=
  let (first, steps) := Text.cut pathMark column.toList
  pathClause (plainClause leaf · value operator) first steps

end DocSearch.Compile
