import DocSearch.Config.Basic
import DocSearch.Error
import DocSearch.Log.Event
import DocSearch.Query.State

/-!
# Clients

A client holds the query under construction, the request that went out last, and the least severity
that it logs.
-/

namespace DocSearch

structure Client where
  query : QueryState := {}
  lastRequest : Option Request := none
  minimum : Log.Severity := .info

namespace Client

/-- The client of a configuration, and what opening it logs. -/
def ofConfig (config : Config) : Except Error (Client × List Log.Entry) :=
  match config.validate, config.severity with
  | .ok _, .ok minimum =>
    let loaded := Log.Event.configLoaded.entry
      [("hosts", String.intercalate "," config.hosts), ("index", config.index),
        ("retries", String.ofList (Nat.toDigits 10 config.retries.toNat))]
    .ok ({ query := .forIndex config.index, minimum }, Log.admitted minimum [loaded])
  | .error e, _ => .error (.config e)
  | _, .error e => .error (.config e)

/-- Declares something on the query of a client. -/
def declare (client : Client) (change : QueryState → QueryState) : Client :=
  { client with query := change client.query }

/-- Declares a sort of a field in a direction. -/
def orderBy (client : Client) (field : String) (direction : SortDirection) : Client :=
  client.declare (·.addSort field direction.spec)

/-- Declares an aggregation over a field, under its name. -/
def aggregateBy (client : Client) (field : String) (kind : AggregationKind) : Client :=
  client.declare (·.addAggregation field (kind.spec field))

end Client

end DocSearch
