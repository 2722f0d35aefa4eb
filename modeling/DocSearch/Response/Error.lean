/-!
# Decoding errors

Why an answer of the engine is no search result, or has no first document.
-/

namespace DocSearch

/-- What is wrong with an answer. -/
inductive AnswerFault where
  | missingHits
  | hitsNotArray
  | sourceNotObject
  | missingId
  | totalNotCount
  | totalValueNotCount
  | totalUnknown
  /-- A fault in the words of a caller. -/
  | other (reason : String)
  deriving DecidableEq

namespace AnswerFault

def reason : AnswerFault → String
  | missingHits => "missing 'hits' section"
  | hitsNotArray => "'hits.hits' is not an array"
  | sourceNotObject => "hit '_source' is not an object"
  | missingId => "hit is missing '_id'"
  | totalNotCount => "'hits.total' is not a count"
  | totalValueNotCount => "'hits.total.value' is not a count"
  | totalUnknown => "'hits.total' has an unknown shape"
  | other reason => reason

end AnswerFault

/-- Why an answer cannot be used. -/
inductive DecodeError where
  | malformed (fault : AnswerFault)
  | noHits
  deriving DecidableEq

namespace DecodeError

def code : DecodeError → String
  | malformed _ => "ELASTIC_DECODE_FAILED"
  | noHits => "ELASTIC_NO_HITS"

def message : DecodeError → String
  | malformed fault => "Malformed search response: " ++ fault.reason
  | noHits => "Search returned no hits"

end DecodeError

end DocSearch
