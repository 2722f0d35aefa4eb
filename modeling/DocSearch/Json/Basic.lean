import DocSearch.Json.Number

/-!
# JSON values

A JSON object is the list of its fields. `Fields.insert` keeps the list sorted by key, in the order of
code points, and keeps one field for a key; the order is not part of the type, so that a value can be
taken apart by plain recursion.
-/

namespace DocSearch

inductive Json where
  | null
  | bool (value : Bool)
  | number (value : Json.Number)
  | text (value : String)
  | array (items : List Json)
  | object (fields : List (String × Json))
  deriving Inhabited

namespace Json

abbrev Fields := List (String × Json)

namespace Fields

def get? (fields : Fields) (key : String) : Option Json := fields.lookup key

/-- Puts a value under a key, in place of the one that stood there. -/
def insert (key : String) (value : Json) : Fields → Fields
  | [] => [(key, value)]
  | (k, v) :: rest =>
    if key < k then (key, value) :: (k, v) :: rest
    else if key = k then (key, value) :: rest
    else (k, v) :: insert key value rest

def erase (key : String) (fields : Fields) : Fields := fields.filter (fun field => field.1 ≠ key)

/-- The fields of a list of assignments, made in their order. -/
def ofList (assignments : List (String × Json)) : Fields :=
  assignments.foldl (fun fields a => insert a.1 a.2 fields) []

end Fields

/-- A number of things. -/
def count (n : UInt64) : Json := .number (.natural n)

/-- The object with one field. -/
def single (key : String) (value : Json) : Json := .object [(key, value)]

/-- A text, or null when there is none. -/
def ofText? (s : Option String) : Json := s.elim .null .text

/-- A number of things, or null when there is none. -/
def ofCount? (n : Option UInt64) : Json := n.elim .null count

def texts (items : List String) : Json := .array (items.map .text)

def asText? : Json → Option String
  | .text s => some s
  | _ => none

def asCount? : Json → Option UInt64
  | .number (.natural n) => some n
  | _ => none

def asBool? : Json → Option Bool
  | .bool b => some b
  | _ => none

def asArray? : Json → Option (List Json)
  | .array items => some items
  | _ => none

def asObject? : Json → Option Fields
  | .object fields => some fields
  | _ => none

def get? (j : Json) (key : String) : Option Json := j.asObject?.bind (Fields.get? · key)

/-- A text or the text of a number, where a name is wanted. -/
def nameText? : Json → Option String
  | .text s => some s
  | .number n => some (String.ofList n.text)
  | _ => none

mutual

/-- Equality of values, in which the two floating-point zeros agree. -/
def agrees : Json → Json → Bool
  | .null, .null => true
  | .bool a, .bool b => a == b
  | .number a, .number b => a.agrees b
  | .text a, .text b => a == b
  | .array a, .array b => agreesItems a b
  | .object a, .object b => agreesFields a b
  | _, _ => false

/-- Equality of arrays, item by item. -/
def agreesItems : List Json → List Json → Bool
  | [], [] => true
  | a :: as, b :: bs => a.agrees b && agreesItems as bs
  | _, _ => false

/-- Equality of objects, field by field. -/
def agreesFields : List (String × Json) → List (String × Json) → Bool
  | [], [] => true
  | (k, a) :: as, (l, b) :: bs => k == l && a.agrees b && agreesFields as bs
  | _, _ => false

end

end Json

end DocSearch
