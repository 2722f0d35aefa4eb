import DocSearch.Config.Error
import DocSearch.Log.Severity
import DocSearch.Text.Pieces

/-!
# Configurations

What a client is configured with, and what is asked of it. `validate` reports the first fault in this
order: the hosts, the index, the log level. `ofLookup` overlays the defaults with named settings.
-/

namespace DocSearch

structure Config where
  hosts : List String := ["http://localhost:9200"]
  retries : UInt32 := 1
  index : String := "index"
  logLevel : String := "info"
  deriving DecidableEq

namespace Config

/-- The starts that a host may have. -/
def schemes : List String := ["http://", "https://"]

def isHost (host : String) : Bool := schemes.any fun scheme => scheme.toList.isPrefixOf host.toList

/-- The first host that is not one. -/
def badHost? (hosts : List String) : Option String := hosts.find? (!isHost ·)

/-- The least severity that is logged. -/
def severity (config : Config) : Except ConfigError Log.Severity :=
  (Log.Severity.ofName? config.logLevel).elim (.error (.badLogLevel config.logLevel)) .ok

/-- Accepts a configuration or tells its first fault. -/
def validate (config : Config) : Except ConfigError Unit := do
  if config.hosts.isEmpty then throw .noHosts
  if let some host := badHost? config.hosts then throw (.badHost host)
  if config.index.toList.all Text.isBlank then throw .noIndex
  let _ ← config.severity
  return ()

/-- A configuration that is accepted. -/
def accepted (config : Config) : Except ConfigError Config := do
  config.validate
  return config

/-- The value of ASCII decimal digits, of which there is at least one. -/
def digitsValue? (cs : List Char) : Option Nat :=
  if cs.isEmpty || !cs.all Char.isDigit then none
  else some (cs.foldl (fun n c => n * 10 + (c.toNat - '0'.toNat)) 0)

/-- A number of 32 bits, which a plus sign may precede. -/
def retriesOf? (cs : List Char) : Option UInt32 := do
  let digits := match cs with
    | '+' :: rest => rest
    | cs => cs
  let n ← digitsValue? digits
  if n < UInt32.size then some (UInt32.ofNat n) else none

def hostVariable : String := "ELASTIC_HOST"

def retriesVariable : String := "ELASTIC_RETRIES"

def indexVariable : String := "ELASTIC_DEFAULT_INDEX"

/-- The defaults overlaid with the settings that are there. -/
def ofLookup (lookup : String → Option String) : Except ConfigError Config := do
  let defaults : Config := {}
  let hosts := (lookup hostVariable).elim defaults.hosts (Text.trimmedPieces ',')
  let retries ← match lookup retriesVariable with
    | none => .ok defaults.retries
    | some text => (retriesOf? (Text.trimChars text.toList)).elim (.error (.badRetries text)) .ok
  let index := (lookup indexVariable).getD defaults.index
  accepted { hosts, retries, index }

end Config

end DocSearch
