import DocSearch.Client.Basic
import DocSearch.Compile.Resolve
import DocSearch.Log.Scope
import DocSearch.Response.Page

/-!
# Calls

A call compiles the query of a client to one request, sends it and reads the answer. Its arguments are
checked before anything is logged. A query that does not compile is kept; once the request has gone out
the query is reset, whatever comes back.
-/

namespace DocSearch

inductive Call where
  /-- Stores a document; a field may hold its id. -/
  | create (document : Json) (idField : String)
  | update (id : String) (changes : Json)
  | delete (id : String)
  /-- Deletes all documents. -/
  | flush
  /-- Searches, and gives the answer as it comes. -/
  | rawSearch
  /-- Searches for one document. -/
  | first
  /-- Searches for a page with the limit and the offset of the query. -/
  | list
  /-- Searches for a page of a size, counted from one. -/
  | paginate (page perPage : UInt64)

/-- What a call gives. -/
inductive Outcome where
  | done
  | value (json : Json)
  | page (page : Page)

namespace Call

/-- How many hits stand before a page. -/
def skippedHits (page perPage : UInt64) : Nat := (page.toNat - 1) * perPage.toNat

/-- Accepts the arguments of a call, or tells what is wrong with them. -/
def check : Call → Except InvalidArgument Unit
  | create document _ => if document.asObject?.isSome then .ok () else .error .documentNotObject
  | paginate page perPage =>
    if page = 0 then .error .pageZero
    else if perPage = 0 then .error .perPageZero
    else if skippedHits page perPage < UInt64.size then .ok ()
    else .error .windowOverflow
  | _ => .ok ()

def operation : Call → Operation
  | create .. => .create
  | update .. => .update
  | delete _ => .delete
  | flush => .deleteByQuery
  | rawSearch | first | list | paginate .. => .search

/-- The id that a document to create holds: a text, or a number as text. -/
def idOf (document : Json) (idField : String) : Option String :=
  (document.get? idField).bind Json.nameText?

def request (call : Call) (q : QueryState) : Except CompileError Request :=
  match call with
  | create document idField => Compile.create q (idOf document idField) document
  | update id changes => Compile.update q id changes
  | delete id => Compile.delete q id
  | flush => Compile.flush q
  | rawSearch | list => Compile.search q
  | first => Compile.search (q.setLimit 1)
  | paginate page perPage =>
    Compile.search ((q.setLimit perPage).setOffset (UInt64.ofNat (skippedHits page perPage)))

/-- The name of the operation in the entry of a compiled request. -/
def requestName : Call → String
  | create .. => "create"
  | update .. => "update"
  | delete _ => "delete"
  | flush => "flush"
  | rawSearch | first | list | paginate .. => "search"

def scope : Call → Log.Scope
  | create document idField => ⟨"CREATE", [("id", (idOf document idField).getD "")]⟩
  | update id _ => ⟨"UPDATE", [("id", id)]⟩
  | delete id => ⟨"DELETE", [("id", id)]⟩
  | flush => ⟨"FLUSH", []⟩
  | rawSearch | first | list | paginate .. => ⟨"SEARCH", []⟩

/-- The statuses with which the engine reports that a write succeeded. -/
def successes : Call → List String
  | create .. => ["created"]
  | update .. => ["updated", "noop"]
  | delete _ => ["deleted"]
  | _ => []

def statusOf (answer : Json) : Option String := (answer.get? "result").bind Json.asText?

/-- The error of a transport, in the terms of a call. -/
def translate : Call → TransportError → Error
  | create .., .conflict reason => .documentExists reason
  | update id _, .notFound _ => .documentNotFound id
  | delete id, .notFound _ => .documentNotFound id
  | _, e => .transport e

/-- The id of a document that was created: the one it came with, or the one the engine gave. -/
def createdId (document : Json) (idField : String) (answer : Json) : Json :=
  match idOf document idField with
  | some id => .text id
  | none => (answer.get? "_id").getD .null

/-- The outcome of a write that succeeded with a status, and its event. -/
def written (call : Call) (answer : Json) (status : String) : Outcome × List Log.Entry :=
  match call with
  | create document idField =>
    let id := createdId document idField answer
    let fields := (document.asObject?.getD [])
    (.value (.object (Json.Fields.insert "_result" answer (Json.Fields.insert "_id" id fields))),
      [Log.Event.documentCreated.entry [("id", id.nameText?.getD ""), ("result", status)]])
  | update id _ => (.done, [Log.Event.documentUpdated.entry [("id", id), ("result", status)]])
  | delete id => (.done, [Log.Event.documentDeleted.entry [("id", id)]])
  | _ => (.value answer, [])

/-- What the answer to a write amounts to, and its event. -/
def settleWrite (call : Call) (answer : Json) : Except Error Outcome × List Log.Entry :=
  let status := statusOf answer
  match status.filter (call.successes.contains ·) with
  | some status =>
    let (outcome, entries) := call.written answer status
    (.ok outcome, entries)
  | none =>
    let shown := status.getD "null"
    (.error (.unexpectedResult shown), [Log.Event.unexpectedResult.entry [("result", shown)]])

/-- What an answer amounts to within the scope of a call, and its event. A search is over once its
answer is there. -/
def settle (call : Call) (request : Request) (answer : Json) :
    Except Error Outcome × List Log.Entry :=
  let index := ("index", request.index?.getD "")
  match call with
  | create .. | update .. | delete _ => call.settleWrite answer
  | flush => (.ok (.value answer), [Log.Event.indexFlushed.entry [index]])
  | rawSearch | first | list | paginate .. =>
    (.ok (.value answer), [Log.Event.searchCompleted.entry [index]])

def decodePage (request : Request) (answer : Json) : Except Error Outcome :=
  match SearchResult.decode answer request with
  | .ok result => .ok (.page (.ofResult result))
  | .error e => .error (.decode e)

def decodeFirst (request : Request) (answer : Json) : Except Error Outcome :=
  match (SearchResult.decode answer request).bind SearchResult.first with
  | .ok document => .ok (.value (.object document))
  | .error e => .error (.decode e)

/-- What a caller gets, from what was settled. -/
def deliver (call : Call) (request : Request) (outcome : Outcome) : Except Error Outcome :=
  match call, outcome with
  | first, .value answer => decodeFirst request answer
  | list, .value answer => decodePage request answer
  | paginate .., .value answer => decodePage request answer
  | _, outcome => .ok outcome

end Call

/-- What a call does: the client after it, what the caller gets, the request that was sent and what was
logged. -/
structure Effect where
  client : Client
  result : Except Error Outcome
  sent : Option (Operation × Request)
  log : List Log.Entry

namespace Client

def compiledEntry (operation : String) (request : Request) : Log.Entry :=
  Log.Event.requestCompiled.entry
    [("index", request.index?.getD ""), ("operation", operation), ("request", request.compact)]

def dispatchedEntry (operation : Operation) (request : Request) : Log.Entry :=
  Log.Event.requestDispatched.entry
    [("index", request.index?.getD ""), ("operation", operation.name)]

def resetEntry (request : Request) : Log.Entry :=
  Log.Event.stateReset.entry [("index", request.index?.getD "")]

def rejectedEntry (operation : Operation) (e : CompileError) : Log.Entry :=
  Log.Event.requestRejected.entry [("code", e.code), ("operation", operation.name)]

def failedEntry (operation : Operation) (e : TransportError) : Log.Entry :=
  Log.Event.transportFailed.entry
    [("code", e.code), ("operation", operation.name), ("reason", e.message)]

/-- What the reply to a request amounts to within the scope of a call, and its event. -/
def settleReply (call : Call) (request : Request) (reply : Reply) :
    Except Error Outcome × List Log.Entry :=
  match reply.answer with
  | .error e => (.error (call.translate e), [failedEntry call.operation e])
  | .ok answer => call.settle request answer

def endEntry (scope : Log.Scope) (elapsed : Nat) : Except Error Outcome → Log.Entry
  | .ok _ => scope.completed elapsed []
  | .error e => scope.failed e.code

/-- Makes a call. The reply is that of the transport, if the call gets to it. -/
def call (client : Client) (call : Call) (reply : Reply) : Effect :=
  match call.check with
  | .error e => ⟨client, .error (.argument e), none, []⟩
  | .ok _ =>
    match call.request client.query with
    | .error e =>
      ⟨client, .error (.compile e), none,
        Log.admitted client.minimum
          [call.scope.begun, rejectedEntry call.operation e, call.scope.failed e.code]⟩
    | .ok request =>
      let (settled, entries) := settleReply call request reply
      { client := { client with query := client.query.reset, lastRequest := some request }
        result := settled.bind (call.deliver request)
        sent := some (call.operation, request)
        log := Log.admitted client.minimum
          (call.scope.begun :: compiledEntry call.requestName request ::
            dispatchedEntry call.operation request :: resetEntry request :: entries ++
            [endEntry call.scope reply.elapsed settled]) }

end Client

end DocSearch
