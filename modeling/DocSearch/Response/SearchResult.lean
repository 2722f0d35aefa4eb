import DocSearch.Request
import DocSearch.Response.Error

/-!
# Search results

`SearchResult.decode` reads the engine's answer to a search. A hit becomes its source with the hit's
identity and score put in. The faults of an answer are looked for in this order: the section of the
hits, the list of the hits, each hit in turn, the total.
-/

namespace DocSearch

/-- A document that was found. -/
abbrev Document := Json.Fields

/-- A decoded answer, with the request and the answer that it comes from. -/
structure SearchResult where
  /-- The milliseconds that the engine took. -/
  took : UInt64
  timedOut : Bool
  shards : Json
  totalHits : UInt64
  maxScore : Option Decimal.Binary64
  hits : List Document
  aggregations : Json
  raw : Json
  request : Request

namespace SearchResult

/-- The source of a hit; an absent one and null are empty. -/
def source (hit : Json) : Except AnswerFault Document :=
  match hit.get? "_source" with
  | none | some .null => .ok []
  | some (.object fields) => .ok fields
  | some _ => .error .sourceNotObject

def document (hit : Json) : Except AnswerFault Document := do
  let fields ← source hit
  match hit.get? "_id" with
  | none => .error .missingId
  | some id =>
    let score := (hit.get? "_score").getD .null
    .ok (Json.Fields.insert "_score" score (Json.Fields.insert "_id" id fields))

def documents : List Json → Except AnswerFault (List Document)
  | [] => .ok []
  | hit :: hits => do
    let found ← document hit
    let others ← documents hits
    return found :: others

/-- The documents of the section of the hits. -/
def sectionHits (hits : Json) : Except AnswerFault (List Document) :=
  match hits.get? "hits" with
  | none => .ok []
  | some (.array items) => documents items
  | some _ => .error .hitsNotArray

/-- The number of matching documents, which the engine may leave out. It is a number, or an object with
the number as its value. -/
def sectionTotal (hits : Json) : Except AnswerFault (Option UInt64) :=
  match hits.get? "total" with
  | none | some .null => .ok none
  | some (.number (.natural n)) => .ok (some n)
  | some (.number _) => .error .totalNotCount
  | some (.object fields) =>
    match (Json.Fields.get? fields "value").bind Json.asCount? with
    | some n => .ok (some n)
    | none => .error .totalValueNotCount
  | some _ => .error .totalUnknown

/-- The best score of the section of the hits, if the engine scored. -/
def sectionScore (hits : Json) : Option Decimal.Binary64 :=
  match hits.get? "max_score" with
  | some (.number n) => n.toBinary64?
  | _ => none

/-- The search result of an answer, or its first fault. -/
def read (raw : Json) (request : Request) : Except AnswerFault SearchResult := do
  let some hitsSection := raw.get? "hits" | .error .missingHits
  let hits ← sectionHits hitsSection
  let total ← sectionTotal hitsSection
  return {
    took := ((raw.get? "took").bind Json.asCount?).getD 0
    timedOut := ((raw.get? "timed_out").bind Json.asBool?).getD false
    shards := (raw.get? "_shards").getD .null
    totalHits := total.getD (UInt64.ofNat hits.length)
    maxScore := sectionScore hitsSection
    hits := hits
    aggregations := (raw.get? "aggregations").getD (.object [])
    raw := raw
    request := request }

def decode (raw : Json) (request : Request) : Except DecodeError SearchResult :=
  (read raw request).mapError .malformed

def first (result : SearchResult) : Except DecodeError Document :=
  result.hits.head?.elim (.error .noHits) .ok

def aggregation? (result : SearchResult) (name : String) : Option Json :=
  result.aggregations.get? name

end SearchResult

end DocSearch
