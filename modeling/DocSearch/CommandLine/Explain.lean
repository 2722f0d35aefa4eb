import DocSearch.Client.Call
import DocSearch.CommandLine.Arguments
import DocSearch.CommandLine.Error
import DocSearch.Config.Reader
import DocSearch.Query.Description

/-!
# Explaining descriptions

The command `explain` compiles the description of a query and prints the request that a client would
send. The fields of a description are applied in the order of their names to a query of the configured
index.
-/

namespace DocSearch.CommandLine

/-- The description that a text spells: one JSON object. -/
def parseDescription (text : String) : Except CommandError Json :=
  if text.toList.all Text.isBlank then .error .emptyInput
  else
    match Json.read? text with
    | none => .error .notJson
    | some (.object fields) => .ok (.object fields)
    | some _ => .error .notObject

def requestFor (purpose : Purpose) (q : QueryState) : Except CompileError Request :=
  match purpose with
  | .search => Compile.search q
  | .flush => Compile.flush q

/-- The request that a description makes. -/
def compileDescription (config : Config) (description : Json) (purpose : Purpose) :
    Except CommandError Request :=
  match description with
  | .object fields =>
    match (QueryState.forIndex config.index).setFields fields with
    | ⟨_, some e⟩ => .error (.rejected (.argument e))
    | ⟨q, none⟩ => (requestFor purpose q).mapError (.rejected ∘ .compile)
  | _ => .error .notObject

/-- What a command reads from. A file or an input that cannot be read says why. -/
structure Surroundings where
  file : String → Except String String
  input : Except String String
  setting : String → Option String

def configOf (around : Surroundings) (path : Option String) : Except CommandError Config :=
  (match path with
    | some path => Config.load (around.file path)
    | none => Config.ofLookup around.setting).mapError .config

def descriptionText (around : Surroundings) (path : Option String) : Except CommandError String :=
  match path with
  | some path => (around.file path).mapError (.unreadable path)
  | none => around.input.mapError .badInput

/-- What the command prints: the entries that it logs, and the request over several lines. -/
def explain (around : Surroundings) (invocation : Invocation) : Except CommandError String := do
  let config ← configOf around invocation.config
  let minimum ← config.severity.mapError .config
  let description ← parseDescription (← descriptionText around invocation.query)
  let request ← compileDescription config description invocation.purpose
  let logged := Log.admitted minimum [Client.compiledEntry invocation.purpose.name request]
  return Log.textOf .stdout logged ++ request.pretty ++ "\n"

end DocSearch.CommandLine
