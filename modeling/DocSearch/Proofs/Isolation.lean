import DocSearch.Proofs.Runs

/-!
# Isolation of operations

Each request of a run is compiled from the target in force at the request before it and from what
was declared since. What came earlier has no part in it, and neither have the replies and the
calls that were rejected.

* `Client.sent_of_alike`: runs that differ in their replies send the same requests.
* `Client.sent_withoutRejected`: a run without its rejected calls sends the same requests.
* `requests_isolated`: all of this, for any run.
-/

namespace DocSearch

/-- The steps are the same, up to the reply. -/
inductive Step.Alike : Step → Step → Prop
  | declare (change : QueryState → QueryState) : Alike (.declare change) (.declare change)
  | call (call : Call) (reply other : Reply) : Alike (.call call reply) (.call call other)

namespace Client

/-- Whether a step is a call that sends nothing. -/
def rejects (client : Client) : Step → Bool
  | .declare _ => false
  | .call call reply => (client.call call reply).sent.isNone

/-- The steps of a run that are no rejected calls. -/
def withoutRejected (client : Client) : List Step → List Step
  | [] => []
  | step :: steps =>
    if client.rejects step then (client.step step).withoutRejected steps
    else step :: (client.step step).withoutRejected steps

theorem step_of_alike (client : Client) {step other : Step} (h : step.Alike other) :
    client.sentBy other = client.sentBy step ∧ client.step other = client.step step := by
  cases h with
  | declare change => exact ⟨rfl, rfl⟩
  | call call reply other => exact client.call_reply_irrelevant call reply other

theorem sent_of_alike {steps others : List Step} (h : List.Forall₂ Step.Alike steps others)
    (client : Client) : client.sent others = client.sent steps := by
  induction h generalizing client with
  | nil => rfl
  | cons hstep _ ih =>
    obtain ⟨hsent, hclient⟩ := client.step_of_alike hstep
    rw [sent, sent, hsent, hclient, ih]

theorem step_of_rejects {client : Client} {step : Step} (h : client.rejects step = true) :
    client.sentBy step = none ∧ client.step step = client := by
  cases step with
  | declare change => cases h
  | call call reply =>
    rcases client.call_effect call reply with hunsent | ⟨request, -, hsent, -⟩
    · exact hunsent
    · simp [rejects, hsent] at h

theorem sent_withoutRejected (client : Client) (steps : List Step) :
    client.sent (client.withoutRejected steps) = client.sent steps := by
  induction steps generalizing client with
  | nil => rfl
  | cons step steps ih =>
    rw [withoutRejected]
    by_cases h : client.rejects step = true
    · obtain ⟨hsent, hclient⟩ := step_of_rejects h
      rw [if_pos h, sent, hsent, hclient, ih]
      rfl
    · rw [if_neg h, sent, sent, ih]

end Client

/-- **Isolation.** The `k`-th request of a run is the one that its call compiles to in the query
that was declared since the request before it, on top of the index and the document type in force
then; before the first request the query starts as that of the client. The replies and the
rejected calls of a run have no part in what it sends. -/
theorem requests_isolated (client : Client) (steps : List Step) :
    (client.dispatches steps).length = (client.sent steps).length ∧
      (∀ k position, (client.dispatches steps)[k]? = some position →
        ∃ call reply operation request, steps[position]? = some (Step.call call reply) ∧
          call.Routes operation ∧ (client.sent steps)[k]? = some (operation, request) ∧
          call.request (client.replayed steps (client.dispatchBefore steps k) position) =
            .ok request) ∧
      (∀ others, List.Forall₂ Step.Alike steps others → client.sent others = client.sent steps) ∧
      client.sent (client.withoutRejected steps) = client.sent steps := by
  refine ⟨?_, fun k position => Client.request_of_dispatch,
    fun others h => Client.sent_of_alike h client, client.sent_withoutRejected steps⟩
  rw [Client.sent_eq_filterMap, List.length_filterMap_eq_countP, List.countP_eq_length_filter]
  rfl

/-- A search, a call that is refused and a search with a limit: of the predicate of the first
search the second knows nothing. -/
theorem requests_isolated_after_refusal :
    let client : Client := { query := .forIndex "users" }
    let failed : Reply := ⟨.error (.failed "timeout"), 0⟩
    let steps : List Step :=
      [.declare (·.filter (.basic "status" .term (some .eq) (.text "active") .and)),
        .call .rawSearch failed, .declare (·.setLimit 5), .call (.paginate 0 5) failed,
        .call .rawSearch failed]
    (client.dispatches steps)[1]? = some 4 ∧ client.dispatchBefore steps 1 = some 1 ∧
      client.replayed steps (some 1) 4 = { index := some "users", limit := some 5 } ∧
      ∃ request, (client.sent steps)[1]? = some (.search, request) ∧
        Compile.search { index := some "users", limit := some 5 } = .ok request := by
  intro client failed steps
  obtain ⟨call, reply, operation, request, hcall, hroutes, hsent, hrequest⟩ :=
    (requests_isolated client steps).2.1 1 4 rfl
  cases hcall
  cases hroutes
  exact ⟨rfl, rfl, rfl, request, hsent, hrequest⟩

end DocSearch
