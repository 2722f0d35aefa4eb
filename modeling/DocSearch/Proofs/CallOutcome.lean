import DocSearch.Client.Call
import Mathlib.Logic.Basic
import Mathlib.Tactic.Common

/-!
# What a call leaves behind

A call is rejected or dispatched. A rejected call fails, sends nothing and leaves the client
as it was. A dispatched call sends one request and leaves a client that remembers it and has
forgotten all of its query but the target, whatever the reply is and whatever the caller makes
of it.

* `Call.routes_iff`: the operation that each call is for.
* `Client.call_of_bad_arguments`, `Client.call_of_uncompiled`, `Client.call_of_compiled`: the
  effect of a call in the three cases.
* `call_all_or_nothing`: each call is either rejected or dispatched, and which of them it is
  depends on its arguments and on whether its request compiles.
-/

namespace DocSearch

/-! ## The operation of a call -/

/-- The calls that search. -/
inductive Call.IsRead : Call → Prop
  | rawSearch : IsRead .rawSearch
  | first : IsRead .first
  | list : IsRead .list
  | paginate (page perPage : UInt64) : IsRead (.paginate page perPage)

/-- The calls that store, change or delete documents. -/
inductive Call.IsWrite : Call → Prop
  | create (document : Json) (idField : String) : IsWrite (.create document idField)
  | update (id : String) (changes : Json) : IsWrite (.update id changes)
  | delete (id : String) : IsWrite (.delete id)
  | flush : IsWrite .flush

/-- The operation that a call is for. A deletion of all documents is a deletion by a query, and
every read is a search. -/
inductive Call.Routes : Call → Operation → Prop
  | create (document : Json) (idField : String) : Routes (.create document idField) .create
  | update (id : String) (changes : Json) : Routes (.update id changes) .update
  | delete (id : String) : Routes (.delete id) .delete
  | flush : Routes .flush .deleteByQuery
  | read {call : Call} (h : call.IsRead) : Routes call .search

theorem Call.IsRead.operation_eq {call : Call} (h : call.IsRead) : call.operation = .search := by
  cases h <;> rfl

theorem Call.isRead_iff {call : Call} : call.IsRead ↔ call.operation = .search := by
  refine ⟨Call.IsRead.operation_eq, fun h => ?_⟩
  cases call with
  | rawSearch => exact .rawSearch
  | first => exact .first
  | list => exact .list
  | paginate page perPage => exact .paginate page perPage
  | _ => cases h

theorem Call.routes_iff {call : Call} {operation : Operation} :
    call.Routes operation ↔ call.operation = operation := by
  constructor
  · intro h
    cases h with
    | read h => exact h.operation_eq
    | _ => rfl
  · rintro rfl
    cases call with
    | create document idField => exact .create document idField
    | update id changes => exact .update id changes
    | delete id => exact .delete id
    | flush => exact .flush
    | _ => exact .read (Call.isRead_iff.mpr rfl)

/-! ## The arguments of a call -/

/-- The arguments that a call refuses: a document to create that is no object, a page or a
page size of zero, and a page that begins beyond the largest offset. -/
def Call.BadArguments : Call → Prop
  | .create document _ => ∀ fields, document ≠ .object fields
  | .paginate page perPage =>
    page = 0 ∨ perPage = 0 ∨ UInt64.size ≤ (page.toNat - 1) * perPage.toNat
  | _ => False

theorem Call.check_create_eq_error_iff {document : Json} {idField : String} :
    (∃ e, (Call.create document idField).check = .error e) ↔
      (Call.create document idField).BadArguments := by
  cases document <;> simp [Call.check, Call.BadArguments, Json.asObject?]

theorem Call.check_paginate_eq_error_iff {page perPage : UInt64} :
    (∃ e, (Call.paginate page perPage).check = .error e) ↔
      (Call.paginate page perPage).BadArguments := by
  simp only [Call.check, Call.BadArguments]
  split
  · rename_i hpage
    exact iff_of_true ⟨_, rfl⟩ (Or.inl hpage)
  · rename_i hpage
    split
    · rename_i hperPage
      exact iff_of_true ⟨_, rfl⟩ (Or.inr (Or.inl hperPage))
    · rename_i hperPage
      rw [or_iff_right hpage, or_iff_right hperPage]
      split
      · rename_i hlt
        refine iff_of_false (by simp) ?_
        rw [Call.skippedHits] at hlt
        omega
      · rename_i hge
        refine iff_of_true ⟨_, rfl⟩ ?_
        rw [Call.skippedHits] at hge
        omega

theorem Call.check_eq_error_iff {call : Call} :
    (∃ e, call.check = .error e) ↔ call.BadArguments := by
  cases call with
  | create document idField => exact Call.check_create_eq_error_iff
  | paginate page perPage => exact Call.check_paginate_eq_error_iff
  | _ => simp [Call.check, Call.BadArguments]

theorem Call.check_eq_ok_iff {call : Call} : call.check = .ok () ↔ ¬ call.BadArguments := by
  rw [← Call.check_eq_error_iff]
  cases call.check with
  | error e => simp
  | ok _ => simp

theorem Call.not_badArguments_paginate_iff {page perPage : UInt64} :
    ¬ (Call.paginate page perPage).BadArguments ↔
      page ≠ 0 ∧ perPage ≠ 0 ∧ (page.toNat - 1) * perPage.toNat < UInt64.size := by
  simp [Call.BadArguments]

/-- What becomes of a call: its arguments are refused, its request does not compile, or it is
sent. -/
inductive Call.Fate (call : Call) (q : QueryState) : Prop
  | refused {e : InvalidArgument} (h : call.check = .error e)
  | uncompiled {e : CompileError} (hargs : call.check = .ok ()) (h : call.request q = .error e)
  | compiled {request : Request} (hargs : call.check = .ok ())
      (h : call.request q = .ok request)

theorem Call.fate (call : Call) (q : QueryState) : call.Fate q := by
  cases hcheck : call.check with
  | error e => exact .refused hcheck
  | ok _ =>
    cases hrequest : call.request q with
    | error e => exact .uncompiled hcheck hrequest
    | ok request => exact .compiled hcheck hrequest

/-! ## The effect of a call -/

namespace Client

variable {client : Client} {call : Call} {reply : Reply}

theorem call_of_bad_arguments {e : InvalidArgument} (h : call.check = .error e) :
    client.call call reply = ⟨client, .error (.argument e), none, []⟩ := by
  rw [Client.call, h]

theorem call_of_uncompiled (hargs : call.check = .ok ()) {e : CompileError}
    (h : call.request client.query = .error e) :
    client.call call reply =
      ⟨client, .error (.compile e), none,
        Log.admitted client.minimum
          [call.scope.begun, rejectedEntry call.operation e, call.scope.failed e.code]⟩ := by
  rw [Client.call, hargs]
  simp only [h]

theorem call_of_compiled (hargs : call.check = .ok ()) {request : Request}
    (h : call.request client.query = .ok request) :
    client.call call reply =
      { client := { client with query := client.query.reset, lastRequest := some request }
        result := (settleReply call request reply).1.bind (call.deliver request)
        sent := some (call.operation, request)
        log := Log.admitted client.minimum
          (call.scope.begun :: compiledEntry call.requestName request ::
            dispatchedEntry call.operation request :: resetEntry request ::
              (settleReply call request reply).2 ++
            [endEntry call.scope reply.elapsed (settleReply call request reply).1]) } := by
  rw [Client.call, hargs]
  simp only [h]

theorem sent_of_compiled (hargs : call.check = .ok ()) {request : Request}
    (h : call.request client.query = .ok request) :
    (client.call call reply).sent = some (call.operation, request) := by
  rw [call_of_compiled hargs h]

end Client

/-- The call failed, sent nothing and left the client as it was. -/
structure Effect.Rejected (effect : Effect) (client : Client) : Prop where
  failed : ∃ e, effect.result = .error e
  unsent : effect.sent = none
  query : effect.client.query = client.query
  lastRequest : effect.client.lastRequest = client.lastRequest

/-- The call sent a request, once and to the operation that the call is for. The client remembers
the request, and of its query only the index and the document type. -/
structure Effect.Dispatched (effect : Effect) (client : Client) (call : Call) (request : Request) :
    Prop where
  sent : ∃ operation, call.Routes operation ∧ effect.sent = some (operation, request)
  query : effect.client.query =
    { index := client.query.index, documentType := client.query.documentType }
  lastRequest : effect.client.lastRequest = some request

theorem Effect.Dispatched.not_rejected {effect : Effect} {client : Client} {call : Call}
    {request : Request} (h : effect.Dispatched client call request) : ¬ effect.Rejected client := by
  intro hrej
  obtain ⟨operation, -, hsent⟩ := h.sent
  cases hsent.symm.trans hrej.unsent

theorem Client.call_cases (client : Client) (call : Call) (reply : Reply) :
    ((call.BadArguments ∨ ∃ e, call.request client.query = .error e) ∧
        (client.call call reply).Rejected client) ∨
      (¬ call.BadArguments ∧ ∃ request, call.request client.query = .ok request ∧
        (client.call call reply).Dispatched client call request) := by
  cases call.fate client.query with
  | @refused e hcheck =>
    rw [Client.call_of_bad_arguments hcheck]
    exact Or.inl ⟨Or.inl (Call.check_eq_error_iff.mp ⟨e, hcheck⟩), ⟨_, rfl⟩, rfl, rfl, rfl⟩
  | @uncompiled e hcheck hrequest =>
    rw [Client.call_of_uncompiled hcheck hrequest]
    exact Or.inl ⟨Or.inr ⟨e, hrequest⟩, ⟨_, rfl⟩, rfl, rfl, rfl⟩
  | @compiled request hcheck hrequest =>
    rw [Client.call_of_compiled hcheck hrequest]
    exact Or.inr ⟨Call.check_eq_ok_iff.mp hcheck, request, hrequest,
      ⟨_, Call.routes_iff.mpr rfl, rfl⟩, rfl, rfl⟩

/-- The reply has no part in what is sent or in the client that is left. -/
theorem Client.call_reply_irrelevant (client : Client) (call : Call) (reply other : Reply) :
    (client.call call other).sent = (client.call call reply).sent ∧
      (client.call call other).client = (client.call call reply).client := by
  cases call.fate client.query with
  | refused hcheck =>
    rw [Client.call_of_bad_arguments hcheck, Client.call_of_bad_arguments hcheck]
    exact ⟨rfl, rfl⟩
  | uncompiled hcheck hrequest =>
    rw [Client.call_of_uncompiled hcheck hrequest, Client.call_of_uncompiled hcheck hrequest]
    exact ⟨rfl, rfl⟩
  | compiled hcheck hrequest =>
    rw [Client.call_of_compiled hcheck hrequest, Client.call_of_compiled hcheck hrequest]
    exact ⟨rfl, rfl⟩

/-- **A call is all or nothing.** It is rejected or dispatched and never both, and what is
dispatched is the request that the call compiles to, sent to the operation that the call is for. It
is rejected exactly if its arguments are bad or its request does not compile. The reply has no part
in what is sent or in the client that is left. -/
theorem call_all_or_nothing (client : Client) (call : Call) (reply : Reply) :
    Xor ((client.call call reply).Rejected client)
        (∃ request, call.request client.query = .ok request ∧
          (client.call call reply).Dispatched client call request) ∧
      ((client.call call reply).Rejected client ↔
        call.BadArguments ∨ ∃ e, call.request client.query = .error e) ∧
      ∀ other, (client.call call other).sent = (client.call call reply).sent ∧
        (client.call call other).client = (client.call call reply).client := by
  refine ⟨?_, ?_, client.call_reply_irrelevant call reply⟩
  · rcases client.call_cases call reply with ⟨-, hrej⟩ | ⟨-, request, hrequest, hsent⟩
    · exact Or.inl ⟨hrej, fun ⟨_, _, hsent⟩ => hsent.not_rejected hrej⟩
    · exact Or.inr ⟨⟨request, hrequest, hsent⟩, hsent.not_rejected⟩
  · rcases client.call_cases call reply with ⟨hrefused, hrej⟩ | ⟨hgood, request, hrequest, hsent⟩
    · exact iff_of_true hrej hrefused
    · refine iff_of_false hsent.not_rejected ?_
      rintro (hbad | ⟨e, he⟩)
      · exact hgood hbad
      · cases hrequest.symm.trans he

/-- An update, a deletion and a deletion of all documents, which the engine does not carry out, and
a page that is none. -/
theorem call_all_or_nothing_writes :
    let client : Client := { query := { index := some "users", limit := some 5 } }
    let reply : Reply := ⟨.error (.failed "timeout"), 0⟩
    let update : Call := .update "7" (.object [("age", .count 30)])
    let updated : Request := ⟨[("body", .object [("doc", .object [("age", .count 30)])]),
      ("id", .text "7"), ("index", .text "users")]⟩
    let deleted : Request := ⟨[("id", .text "7"), ("index", .text "users")]⟩
    let flushed : Request := ⟨[("body", .object [("query", .object [("match_all", .object [])])]),
      ("index", .text "users")]⟩
    (client.call update reply).sent = some (.update, updated) ∧
      (client.call (.delete "7") reply).sent = some (.delete, deleted) ∧
      (client.call .flush reply).sent = some (.deleteByQuery, flushed) ∧
      (client.call update reply).Dispatched client update updated ∧
      (client.call (.delete "7") reply).Dispatched client (.delete "7") deleted ∧
      (client.call .flush reply).Dispatched client .flush flushed ∧
      (client.call (.paginate 0 5) reply).Rejected client := by
  intro client reply update updated deleted flushed
  have hdispatched : ∀ call request, ¬ call.BadArguments → call.request client.query = .ok request →
      (client.call call reply).Dispatched client call request := by
    intro call request hargs hrequest
    obtain ⟨hone, hrejected, -⟩ := call_all_or_nothing client call reply
    rcases hone with ⟨hrej, -⟩ | ⟨⟨found, hfound, hsent⟩, -⟩
    · rcases hrejected.mp hrej with hbad | ⟨e, he⟩
      · exact absurd hbad hargs
      · cases hrequest.symm.trans he
    · cases hrequest.symm.trans hfound
      exact hsent
  obtain ⟨-, hrejected, -⟩ := call_all_or_nothing client (.paginate 0 5) reply
  exact ⟨rfl, rfl, rfl, hdispatched update updated id rfl, hdispatched _ deleted id rfl,
    hdispatched _ flushed id rfl, hrejected.mpr (Or.inl (Or.inl rfl))⟩

end DocSearch
