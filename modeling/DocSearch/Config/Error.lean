/-!
# Configuration errors

Why a configuration is not accepted. A message that ends with a colon leaves room for what the reader of
the file or of its text has to say.
-/

namespace DocSearch

/-- Why a configuration is not accepted. -/
inductive ConfigError where
  | unreadable (detail : String)
  /-- The text of the file is no configuration. -/
  | notConfig
  | noHosts
  | badHost (host : String)
  | noIndex
  | badLogLevel (name : String)
  | badRetries (text : String)
  /-- An error in the words of a caller. -/
  | other (message : String)
  deriving DecidableEq

namespace ConfigError

def message : ConfigError → String
  | unreadable detail => "Failed to read config: " ++ detail
  | notConfig => "Invalid config JSON: "
  | noHosts => "hosts must not be empty"
  | badHost host => "Invalid host: '" ++ host ++ "'. Must start with http:// or https://"
  | noIndex => "index must not be empty"
  | badLogLevel name => "Invalid log_level: '" ++ name ++ "'"
  | badRetries text => "Invalid ELASTIC_RETRIES: '" ++ text ++ "'"
  | other message => message

end ConfigError

end DocSearch
