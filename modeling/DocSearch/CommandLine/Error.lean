import DocSearch.Error

/-!
# Errors of the command line

Why a command fails. The message about a file ends with what the system says, and the message about a
text that is no JSON leaves room for where it goes wrong.
-/

namespace DocSearch

/-- Why a command fails. -/
inductive CommandError where
  | config (e : ConfigError)
  | unreadable (path detail : String)
  | badInput (detail : String)
  | emptyInput
  | notJson
  | notObject
  /-- The description makes no request. -/
  | rejected (e : Error)
  deriving DecidableEq

namespace CommandError

/-- The error of a command that an error of the library ends. -/
def ofError : Error → CommandError
  | .config e => config e
  | e => rejected e

def code : CommandError → String
  | config _ => "ELASTIC_CLI_CONFIG_ERROR"
  | unreadable .. | badInput _ | emptyInput | notJson => "ELASTIC_CLI_IO_ERROR"
  | notObject | rejected _ => "ELASTIC_CLI_INVALID_QUERY"

def message : CommandError → String
  | config e => e.message
  | unreadable path detail => "Failed to read " ++ path ++ ": " ++ detail
  | badInput detail => detail
  | emptyInput => "Empty input"
  | notJson => "JSON error: "
  | notObject => "query description must be a JSON object"
  | rejected e => "[" ++ e.code ++ "] " ++ e.message

/-- The line that tells of an error. -/
def display (e : CommandError) : String := e.code ++ ": " ++ e.message

end CommandError

end DocSearch
