import DocSearch.Json.Printer
import DocSearch.Log.Severity

/-!
# Log entries

An entry is an event with named texts. Its line is one JSON object: the event, the severity, and the
fields in the order of their keys; fields with one key keep their order. As every text is quoted, the
only line break of a line is its last character.
-/

namespace DocSearch.Log

inductive Stream where
  | stdout
  | stderr
  deriving DecidableEq

structure Entry where
  stream : Stream
  severity : Severity
  event : String
  fields : List (String × String)
  deriving DecidableEq

namespace Entry

/-- Puts a field before the first whose key is not smaller. -/
def insertField (field : String × String) : List (String × String) → List (String × String)
  | [] => [field]
  | next :: rest =>
    if field.1 ≤ next.1 then field :: next :: rest else next :: insertField field rest

def sortFields (fields : List (String × String)) : List (String × String) :=
  fields.foldr insertField []

/-- A key and its text after another field. -/
def fieldChars (field : String × String) : List Char :=
  ',' :: (Json.quoted field.1 ++ ':' :: Json.quoted field.2)

def chars (entry : Entry) : List Char :=
  '{' :: (Json.quoted "event" ++ ':' :: (Json.quoted entry.event ++
    fieldChars ("severity", entry.severity.name) ++
    (sortFields entry.fields).flatMap fieldChars ++ ['}', '\n']))

def line (entry : Entry) : String := String.ofList entry.chars

/-- An entry of a severity; the grave ones go to the stream for errors. -/
def ofSeverity (severity : Severity) (event : String) (fields : List (String × String)) : Entry :=
  ⟨if Severity.error.admits severity then .stderr else .stdout, severity, event, fields⟩

end Entry

/-- The entries that are written when `minimum` is the least severity that is. -/
def admitted (minimum : Severity) (entries : List Entry) : List Entry :=
  entries.filter (fun entry => minimum.admits entry.severity)

def linesOf (stream : Stream) (entries : List Entry) : List String :=
  (entries.filter (fun entry => entry.stream = stream)).map Entry.line

/-- What the entries write to a stream. -/
def textOf (stream : Stream) (entries : List Entry) : String := String.join (linesOf stream entries)

end DocSearch.Log
