import DocSearch.Proofs.Requests
import DocSearch.Proofs.Runs

/-!
# Requests that reach the transport

Every request of a run names a target and is otherwise shaped for its operation alone, whatever
else is declared on the client; and the client remembers the request that went out last.

* `Call.Sends`: the operation of each call, and the body and the id that it has.
* `Call.shapes_of_request`: the requests that a call compiles to.
* `Client.lastRequest_after`: what a client remembers at the end of a run.
* `sent_requests_shaped`: both, for any run of a client that has sent nothing yet.
-/

namespace DocSearch

/-- The fields of the object that a search sends: none of them is the target, and a size or an
offset is not zero. -/
structure IsSearchBody (fields : Json.Fields) : Prop where
  keys : ∀ field ∈ fields,
    field.1 ∈ ["_source", "query", "aggs", "sort", "size", "from", "scroll"]
  size_pos : ∀ value, ("size", value) ∈ fields → ∃ n : UInt64, 0 < n ∧ value = .count n
  from_pos : ∀ value, ("from", value) ∈ fields → ∃ n : UInt64, 0 < n ∧ value = .count n

/-- The id that a document to create is sent with: a text or a number under the id field. -/
def Json.Names (document : Json) (idField : String) (id : Option String) : Prop :=
  match document.get? idField with
  | some (.text s) => id = some s
  | some (.number n) => id = some (String.ofList n.text)
  | _ => id = none

/-- The operation, the body and the id that a call sends. -/
inductive Call.Sends : Call → Operation → Option Json → Option String → Prop
  | create {document : Json} {idField : String} {id : Option String}
      (h : document.Names idField id) :
      Sends (.create document idField) .create (some document) id
  | update (id : String) (changes : Json) :
      Sends (.update id changes) .update (some (.object [("doc", changes)])) (some id)
  | delete (id : String) : Sends (.delete id) .delete none (some id)
  | flush :
      Sends .flush .deleteByQuery
        (some (.object [("query", .object [("match_all", .object [])])])) none
  | search {read : Call} {fields : Json.Fields} (hread : read.IsRead)
      (hbody : IsSearchBody fields) : Sends read .search (some (.object fields)) none

/-- The request has an index, perhaps a document type, neither of them empty, the body and the id
that the call sends to the operation, and nothing else. -/
def Call.Shapes (call : Call) (operation : Operation) (request : Request) : Prop :=
  ∃ body id index documentType, call.Sends operation body id ∧ index ≠ "" ∧
    documentType ≠ some "" ∧ request = .assembled body id index documentType

/-! ## One call -/

section Shapes

variable {q : QueryState} {request : Request} {call : Call}

/-- A count among the fields that a search sends is that of a set attribute. -/
theorem count_pos_of_isSet {n : Option UInt64} {value : Json} (hset : n.any (· ≠ 0) = true)
    (hvalue : Except.ok (ε := CompileError) (Json.ofCount? n) = .ok value) :
    ∃ n : UInt64, 0 < n ∧ value = .count n := by
  cases n with
  | none => cases hset
  | some n =>
    cases hvalue
    have hne : n ≠ 0 := by simpa using hset
    exact ⟨n, UInt64.pos_iff_ne_zero.mpr hne, rfl⟩

theorem isSearchBody_searchFields (h : Compile.resolve q = .ok request) :
    IsSearchBody (Compile.searchFields request) := by
  refine ⟨?_, ?_, ?_⟩
  · rintro ⟨key, value⟩ hfield
    obtain ⟨hindex, htype, a, -, rfl, -⟩ := Compile.mem_searchFields h hfield
    cases a <;> first | exact absurd rfl hindex | exact absurd rfl htype | simp [Compile.parameter]
  · intro value hfield
    obtain ⟨-, -, a, hset, hkey, hvalue⟩ := Compile.mem_searchFields h hfield
    obtain rfl : a = .limit := Compile.parameter_injective hkey.symm
    exact count_pos_of_isSet hset hvalue
  · intro value hfield
    obtain ⟨-, -, a, hset, hkey, hvalue⟩ := Compile.mem_searchFields h hfield
    obtain rfl : a = .offset := Compile.parameter_injective hkey.symm
    exact count_pos_of_isSet hset hvalue

theorem Json.names_idOf (document : Json) (idField : String) :
    document.Names idField (Call.idOf document idField) := by
  rw [Json.Names, Call.idOf]
  cases document.get? idField with
  | none => rfl
  | some value => cases value <;> rfl

theorem Call.shapes_of_names {operation : Operation} {body : Option Json} {id : Option String}
    (hsends : call.Sends operation body id)
    (h : ∃ index documentType, q.Names index documentType ∧
      request = .assembled body id index documentType) : call.Shapes operation request := by
  obtain ⟨index, documentType, hnames, hrequest⟩ := h
  exact ⟨body, id, index, documentType, hsends, hnames.index_ne, hnames.type_ne, hrequest⟩

theorem Call.shapes_of_search (hread : call.IsRead) (h : Compile.search q = .ok request) :
    call.Shapes .search request := by
  obtain ⟨resolved, index, documentType, hresolve, hnames, hrequest⟩ :=
    Compile.search_eq_ok_iff.mp h
  exact Call.shapes_of_names (.search hread (isSearchBody_searchFields hresolve))
    ⟨index, documentType, hnames, hrequest⟩

/-- What a call compiles to from any query state is shaped for the operation of the call. -/
theorem Call.shapes_of_request {operation : Operation} (hroutes : call.Routes operation)
    (h : call.request q = .ok request) : call.Shapes operation request := by
  cases hroutes with
  | create document idField =>
    exact Call.shapes_of_names (.create (Json.names_idOf document idField))
      (Compile.create_eq_ok_iff.mp h).2
  | update id changes =>
    exact Call.shapes_of_names (.update id changes) (Compile.update_eq_ok_iff.mp h).2
  | delete id => exact Call.shapes_of_names (.delete id) (Compile.delete_eq_ok_iff.mp h).2
  | flush => exact Call.shapes_of_names .flush (Compile.flush_eq_ok_iff.mp h).2
  | read hread =>
    cases hread with
    | rawSearch => exact Call.shapes_of_search .rawSearch h
    | first => exact Call.shapes_of_search .first h
    | list => exact Call.shapes_of_search .list h
    | paginate page perPage => exact Call.shapes_of_search (.paginate page perPage) h

end Shapes

/-! ## A whole run -/

namespace Client

/-- At the end of a run a client remembers the request that went out last, or what it remembered
at its beginning if none did. -/
theorem lastRequest_after (client : Client) (steps : List Step) :
    (client.after steps).lastRequest =
      ((client.sent steps).getLast?.map (·.2)).or client.lastRequest := by
  induction steps generalizing client with
  | nil => rfl
  | cons step steps ih =>
    rw [after, List.foldl_cons]
    refine (ih (client.step step)).trans ?_
    rw [sent, List.getLast?_append]
    cases hsent : client.sentBy step with
    | none =>
      rw [(step_of_unsent hsent).2]
      simp
    | some entry =>
      obtain ⟨call, reply, -, -, -, -, hlast⟩ := step_of_sent hsent
      rw [hlast]
      cases (client.step step).sent steps |>.getLast? <;> simp

/-- The `k`-th request of a run is shaped for the operation that it is sent to, with what is given
to the call at the `k`-th dispatch. -/
theorem shapes_of_sent {client : Client} {steps : List Step} {k : Nat} {operation : Operation}
    {request : Request} (h : (client.sent steps)[k]? = some (operation, request)) :
    ∃ position call reply, (client.dispatches steps)[k]? = some position ∧
      steps[position]? = some (.call call reply) ∧ call.Shapes operation request := by
  rw [sent_getElem?] at h
  obtain ⟨position, hposition, hat⟩ := Option.bind_eq_some_iff.mp h
  obtain ⟨step, hstep, hsent⟩ := Option.bind_eq_some_iff.mp hat
  obtain ⟨call, reply, rfl, hroutes, hrequest, -⟩ := step_of_sent hsent
  exact ⟨position, call, reply, hposition, hstep, Call.shapes_of_request hroutes hrequest⟩

end Client

/-- **What reaches the transport.** In any run of a client that has sent nothing yet, every
request names a target and is shaped for the operation that it is sent to, with what is given to
the call that sends it; and at any position of the run the client remembers the last of the requests
sent up to there, if there is any. -/
theorem sent_requests_shaped (query : QueryState) (minimum : Log.Severity) (steps : List Step) :
    let client : Client := { query, minimum }
    (∀ (k : Nat) operation request, (client.sent steps)[k]? = some (operation, request) →
      ∃ (position : Nat) (call : Call) (reply : Reply),
        (client.dispatches steps)[k]? = some position ∧
        steps[position]? = some (.call call reply) ∧ call.Shapes operation request) ∧
      ∀ position, (client.after (steps.take position)).lastRequest =
        (client.sent (steps.take position)).getLast?.map (·.2) := by
  intro client
  refine ⟨fun k operation request => Client.shapes_of_sent, fun position => ?_⟩
  rw [client.lastRequest_after, Option.or_none]

/-- A document is created from a query full of a search, a search follows with a limit of zero, and
then all documents are deleted. -/
theorem sent_requests_shaped_create :
    let failed : Reply := ⟨.error (.failed "timeout"), 0⟩
    let document : Json := .object [("id", .count 7)]
    let create : Call := .create document "id"
    let steps : List Step :=
      [.declare (·.setDocumentType ""), .declare (·.setOffset 20), .call create failed,
        .declare (·.setLimit 0), .call .rawSearch failed, .call .flush failed]
    let client : Client := { query := .forIndex "users" }
    let stored : Request := .assembled (some document) (some "7") "users" none
    let searched : Request := .assembled (some (.object [])) none "users" none
    let flushed : Request := .assembled
      (some (.object [("query", .object [("match_all", .object [])])])) none "users" none
    client.sent steps = [(.create, stored), (.search, searched), (.deleteByQuery, flushed)] ∧
      create.Shapes .create stored ∧ Call.flush.Shapes .deleteByQuery flushed ∧
      (client.after steps).lastRequest = some flushed := by
  intro failed document create steps client stored searched flushed
  obtain ⟨hshapes, hlast⟩ := sent_requests_shaped (.forIndex "users") .info steps
  have hsent :
      client.sent steps = [(.create, stored), (.search, searched), (.deleteByQuery, flushed)] := by
    -- `rfl` alone would evaluate a client anew for each step after it
    simp only [client, steps, Client.sent, Client.sentBy, Client.step, Option.toList]
    rfl
  have hdispatches : client.dispatches steps = [2, 4, 5] := by decide +kernel
  obtain ⟨position, call, reply, hposition, hcall, hcreate⟩ :=
    hshapes 0 .create stored (congrArg (·[0]?) hsent)
  obtain ⟨position', call', reply', hposition', hcall', hflush⟩ :=
    hshapes 2 .deleteByQuery flushed (congrArg (·[2]?) hsent)
  cases (congrArg (·[0]?) hdispatches).symm.trans hposition
  cases (congrArg (·[2]?) hdispatches).symm.trans hposition'
  cases hcall
  cases hcall'
  exact ⟨hsent, hcreate, hflush, (hlast 6).trans (congrArg (·.getLast?.map (·.2)) hsent)⟩

end DocSearch
