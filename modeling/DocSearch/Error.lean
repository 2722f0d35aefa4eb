import DocSearch.Compile.Error
import DocSearch.Config.Error
import DocSearch.Query.InvalidArgument
import DocSearch.Response.Error
import DocSearch.Transport

/-!
# Errors

All errors that a caller of the library meets. Each has a stable code and a message, and is
recoverable when the caller may try again.
-/

namespace DocSearch

inductive Error where
  | argument (e : InvalidArgument)
  | compile (e : CompileError)
  | decode (e : DecodeError)
  | transport (e : TransportError)
  /-- A document to create is there already. -/
  | documentExists (reason : String)
  /-- A document to change or delete is not there. -/
  | documentNotFound (id : String)
  /-- The engine answered a write with a status that means no success. -/
  | unexpectedResult (status : String)
  | config (e : ConfigError)
  deriving DecidableEq

namespace Error

def code : Error → String
  | argument _ => "ELASTIC_INVALID_ARGUMENT"
  | compile e => e.code
  | decode e => e.code
  | transport e => e.code
  | documentExists _ => "ELASTIC_DOCUMENT_EXISTS"
  | documentNotFound _ => "ELASTIC_NOT_FOUND_DOCUMENT"
  | unexpectedResult _ => "ELASTIC_UNEXPECTED_RESULT"
  | config _ => "ELASTIC_CONFIG_ERROR"

def message : Error → String
  | argument e => e.message
  | compile e => e.message
  | decode e => e.message
  | transport e => e.message
  | documentExists reason => "Document already exists: " ++ reason
  | documentNotFound id => "Document not found: " ++ id
  | unexpectedResult status => "Unexpected result from engine: " ++ status
  | config e => "Configuration error: " ++ e.message

/-- Whether a caller may try again. -/
def recoverable : Error → Bool
  | transport (.failed _) => true
  | documentExists _ => true
  | documentNotFound _ => true
  | decode .noHits => true
  | _ => false

end Error

end DocSearch
