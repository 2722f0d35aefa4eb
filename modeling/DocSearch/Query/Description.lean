import DocSearch.Query.State

/-!
# Setting attributes from JSON

`QueryState.set` gives an attribute the value that a JSON value describes. A list is applied item by
item: the first item that is rejected ends the setting, and what came before it stays. A predicate is
described by an object, and a nested query by the list of its predicates; a predicate of which any part
is rejected is rejected as a whole.
-/

namespace DocSearch

/-- The state after a setting, and what was rejected. -/
structure Applied where
  state : QueryState
  fault : Option InvalidArgument

namespace Applied

/-- A setting that was accepted. -/
def accept (q : QueryState) : Applied := ⟨q, none⟩

/-- A setting that was rejected, and left the state as it was. -/
def reject (q : QueryState) (e : InvalidArgument) : Applied := ⟨q, some e⟩

/-- A setting that depends on a value that may be rejected. -/
def ofExcept {α : Type} (q : QueryState) (value : Except InvalidArgument α)
    (change : QueryState → α → QueryState) : Applied :=
  match value with
  | .ok a => accept (change q a)
  | .error e => reject q e

/-- Applies items in their order, up to the first that is rejected. -/
def each {α : Type} (apply : QueryState → α → Applied) : QueryState → List α → Applied
  | q, [] => accept q
  | q, a :: rest =>
    match apply q a with
    | ⟨q', none⟩ => each apply q' rest
    | ⟨q', some e⟩ => ⟨q', some e⟩

end Applied

namespace Predicate

/-- The conjunction of a description: a text, or AND when there is none. -/
def describedJoin (fields : Json.Fields) : Except InvalidArgument Conjunction :=
  match fields.get? "boolean" with
  | none => .ok .and
  | some (.text name) => Conjunction.of name
  | some _ => .error (.unsupported .wheres)

/-- The leaf kind of a description: a text, or a term when there is none. -/
def describedLeaf (fields : Json.Fields) : Except InvalidArgument LeafKind :=
  match fields.get? "leaf" with
  | none => .ok .term
  | some (.text name) => LeafKind.of name
  | some _ => .error (.unsupported .wheres)

/-- The operator of a description: a symbol, or null for none. When there is no such field a term is
compared by equality, and another leaf has no operator. -/
def describedOperator (fields : Json.Fields) (leaf : LeafKind) :
    Except InvalidArgument (Option Operator) :=
  match fields.get? "operator" with
  | none => .ok (if leaf = .term then some .eq else none)
  | some .null => .ok none
  | some (.text symbol) => (Operator.of symbol).map some
  | some _ => .error (.unsupported .wheres)

def describedColumn (fields : Json.Fields) : Except InvalidArgument String :=
  ((fields.get? "column").bind Json.asText?).elim (.error .missingColumn) .ok

def describedTest (fields : Json.Fields) (joined : Conjunction) :
    Except InvalidArgument Predicate := do
  let column ← describedColumn fields
  let leaf ← describedLeaf fields
  let operator ← describedOperator fields leaf
  comparison column operator ((fields.get? "value").getD .null) leaf joined

mutual

def described : Json → Except InvalidArgument Predicate
  | .object fields => do
    let joined ← describedJoin fields
    match describedNesting fields with
    | some members => return .nested {} (← members) joined
    | none => describedTest fields joined
  | _ => .error (.unsupported .wheres)

/-- The members of the nested query among the fields of a description, if there is one. -/
def describedNesting : List (String × Json) → Option (Except InvalidArgument (List Predicate))
  | [] => none
  | (key, value) :: rest =>
    if key = "nested" then some (describedMembers value) else describedNesting rest

def describedMembers : Json → Except InvalidArgument (List Predicate)
  | .array items => describedItems items
  | _ => .error (.unsupported .wheres)

def describedItems : List Json → Except InvalidArgument (List Predicate)
  | [] => .ok []
  | item :: items => do
    let p ← described item
    let ps ← describedItems items
    return p :: ps

end

end Predicate

/-- The specification of a sort: the name of a direction, or what the engine takes. -/
def sortSpec : Json → Except InvalidArgument Json
  | .text name => (SortDirection.of name).map SortDirection.spec
  | spec => .ok spec

namespace QueryState

/-- The text that an attribute is set to. -/
def textFor (a : Attribute) (value : Json) : Except InvalidArgument String :=
  value.asText?.elim (.error (.unsupported a)) .ok

/-- The number that an attribute is set to. -/
def countFor (a : Attribute) (value : Json) : Except InvalidArgument UInt64 :=
  value.asCount?.elim (.error (.unsupported a)) .ok

def setColumn (q : QueryState) (value : Json) : Applied :=
  .ofExcept q (textFor .columns value) addColumn

def setSort (q : QueryState) (entry : String × Json) : Applied :=
  .ofExcept q (sortSpec entry.2) (·.addSort entry.1)

/-- Declares the sorts of an object, field by field. -/
def setSorts (q : QueryState) : Json → Applied
  | .object fields => .each setSort q fields
  | _ => .reject q (.unsupported .orders)

def setPredicate (q : QueryState) (value : Json) : Applied :=
  .ofExcept q (Predicate.described value) filter

/-- Gives an attribute the value that is described. -/
def set (q : QueryState) (a : Attribute) (value : Json) : Applied :=
  match a with
  | .index => .ofExcept q (textFor .index value) setIndex
  | .documentType => .ofExcept q (textFor .documentType value) setDocumentType
  | .scroll => .ofExcept q (textFor .scroll value) setScroll
  | .limit => .ofExcept q (countFor .limit value) setLimit
  | .offset => .ofExcept q (countFor .offset value) setOffset
  | .columns =>
    match value with
    | .text column => .accept (q.addColumn column)
    | .array items => .each setColumn q items
    | _ => .reject q (.unsupported .columns)
  | .orders =>
    match value with
    | .array items => .each setSorts q items
    | .object fields => .each setSort q fields
    | _ => .reject q (.unsupported .orders)
  | .aggregations =>
    match value with
    | .object fields =>
      .accept (fields.foldl (fun q field => q.addAggregation field.1 field.2) q)
    | _ => .reject q (.unsupported .aggregations)
  | .wheres =>
    match value with
    | .array items => .each setPredicate q items
    | _ => .reject q (.unsupported .wheres)

/-- Gives the attribute that a field names its value. -/
def setField (q : QueryState) (field : String × Json) : Applied :=
  match Attribute.of field.1 with
  | .ok a => q.set a field.2
  | .error e => .reject q e

/-- Gives the attributes that fields name their values, in their order. -/
def setFields (q : QueryState) (fields : Json.Fields) : Applied := .each setField q fields

end QueryState

end DocSearch
