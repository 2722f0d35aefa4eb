import DocSearch.Config.Basic
import DocSearch.Json.Reader

/-!
# Reading configurations

A configuration is written as a JSON object, in which a known field stands at most once and unknown
ones are skipped, or as an array of at most four values in the order of the fields. What is left out
has its default.
-/

namespace DocSearch.Config

open Json.Reader

inductive Key where
  | hosts
  | retries
  | index
  | logLevel
  deriving DecidableEq

namespace Key

def all : List Key := [hosts, retries, index, logLevel]

def name : Key → String
  | hosts => "hosts"
  | retries => "retries"
  | index => "index"
  | logLevel => "log_level"

def ofName? (name : String) : Option Key := all.find? (fun key => key.name = name)

end Key

/-- Gives a field the value that JSON describes. -/
def give? (config : Config) (key : Key) (value : Json) : Option Config :=
  match key with
  | .hosts => do
    let hosts ← (← value.asArray?).mapM Json.asText?
    some { config with hosts }
  | .retries => do
    let retries ← value.asCount?
    if retries.toNat < UInt32.size then some { config with retries := retries.toUInt32 } else none
  | .index => do
    let index ← value.asText?
    some { config with index }
  | .logLevel => do
    let logLevel ← value.asText?
    some { config with logLevel }

/-- Gives fields their values, in their order. -/
def giveAll? : Config → List (Key × Json) → Option Config
  | config, [] => some config
  | config, (key, value) :: rest => do giveAll? (← give? config key value) rest

/-- Whether no field is assigned twice. -/
def onlyOnce : List (Key × Json) → Bool
  | [] => true
  | (key, _) :: rest => rest.all (·.1 ≠ key) && onlyOnce rest

/-- The value of a known field; that of an unknown field is skipped. -/
def member? (fuel : Nat) (name : String) (cs : List Char) :
    Option (Option (Key × Json) × List Char) :=
  match Key.ofName? name with
  | some key => do
    let (value, left) ← value? .kept fuel greatestDepth cs
    some (some (key, value), left)
  | none => do
    let (_, left) ← value? .skipped fuel fuel cs
    some (none, left)

/-- The values of the fields that a text gives. -/
def assignments? (text : String) : Option (List (Key × Json)) :=
  let fuel := text.length
  match skipSpace text.toList with
  | '{' :: rest => do
    let members ← atEnd (← object? .kept (member? fuel) fuel rest)
    some (members.filterMap (·.2))
  | '[' :: rest => do
    let items ← atEnd (← array? (value? .kept fuel greatestDepth) fuel rest)
    if items.length ≤ Key.all.length then some (Key.all.zip items) else none
  | _ => none

/-- The configuration that a text spells, before it is validated. -/
def read? (text : String) : Option Config := do
  let assignments ← assignments? text
  if onlyOnce assignments then giveAll? {} assignments else none

/-- The configuration of a file, of which the text is given or why it cannot be read. -/
def load (file : Except String String) : Except ConfigError Config := do
  let text ← file.mapError .unreadable
  let config ← (read? text).elim (.error .notConfig) .ok
  accepted config

end DocSearch.Config
