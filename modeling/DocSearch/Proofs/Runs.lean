import DocSearch.Proofs.CallOutcome
import Mathlib.Data.List.Basic

/-!
# Runs of a client

A run is a list of steps: declarations, which change the query of the client, and calls, each
with the reply that stands ready for it. Some of the calls hand a request to the transport;
between two that do, the query of the client is what was declared since the earlier one, on top
of the target that was in force at it.

* `Client.step_of_unsent`, `Client.step_of_sent`: what one step does to the client.
* `Client.query_after_take`: the query at any position of a run is a replay.
* `Client.request_of_dispatch`: so is the query that the `k`-th request of a run compiles from.
-/

namespace DocSearch

inductive Step where
  | declare (change : QueryState → QueryState)
  /-- A call, and the reply of the transport if the call gets to it. -/
  | call (call : Call) (reply : Reply)

namespace Client

def step (client : Client) : Step → Client
  | .declare change => client.declare change
  | .call call reply => (client.call call reply).client

/-- What a step hands to the transport. -/
def sentBy (client : Client) : Step → Option (Operation × Request)
  | .declare _ => none
  | .call call reply => (client.call call reply).sent

def after (client : Client) (steps : List Step) : Client := steps.foldl step client

/-- What a run hands to the transport, in order. -/
def sent (client : Client) : List Step → List (Operation × Request)
  | [] => []
  | step :: steps => (client.sentBy step).toList ++ (client.step step).sent steps

/-- What the step at a position of a run hands to the transport. -/
def sentAt (client : Client) (steps : List Step) (position : Nat) : Option (Operation × Request) :=
  steps[position]?.bind (client.after (steps.take position)).sentBy

/-- The positions of the steps that hand something to the transport. -/
def dispatches (client : Client) (steps : List Step) : List Nat :=
  (List.range steps.length).filter fun position => (client.sentAt steps position).isSome

end Client

/-! ## Replays -/

/-- Makes the declarations among some steps, in their order. -/
def replay (q : QueryState) (steps : List Step) : QueryState :=
  steps.foldl (fun q step => match step with
    | .declare change => change q
    | .call .. => q) q

/-- The query that is declared up to a position of a run, if `last` is the position of the last
dispatch before it: what was declared since, on top of the target in force at that dispatch. -/
def Client.replayed (client : Client) (steps : List Step) (last : Option Nat) (position : Nat) :
    QueryState :=
  match last with
  | none => replay client.query (steps.take position)
  | some last =>
    let q := (client.after (steps.take last)).query
    replay { index := q.index, documentType := q.documentType }
      ((steps.take position).drop (last + 1))

/-- The position of the dispatch before the `k`-th one. -/
def Client.dispatchBefore (client : Client) (steps : List Step) : Nat → Option Nat
  | 0 => none
  | k + 1 => (client.dispatches steps)[k]?

/-! ## One step -/

namespace Client

variable {client : Client} {steps : List Step} {position k : Nat} {step : Step}

theorem call_effect (client : Client) (call : Call) (reply : Reply) :
    ((client.call call reply).sent = none ∧ (client.call call reply).client = client) ∨
      ∃ request, call.request client.query = .ok request ∧
        (client.call call reply).sent = some (call.operation, request) ∧
        (client.call call reply).client =
          { client with query := client.query.reset, lastRequest := some request } := by
  cases call.fate client.query with
  | refused hcheck =>
    rw [call_of_bad_arguments hcheck]
    exact Or.inl ⟨rfl, rfl⟩
  | uncompiled hcheck hrequest =>
    rw [call_of_uncompiled hcheck hrequest]
    exact Or.inl ⟨rfl, rfl⟩
  | @compiled request hcheck hrequest =>
    rw [call_of_compiled hcheck hrequest]
    exact Or.inr ⟨request, hrequest, rfl, rfl⟩

theorem step_of_unsent (h : client.sentBy step = none) :
    (client.step step).query = replay client.query [step] ∧
      (client.step step).lastRequest = client.lastRequest := by
  cases step with
  | declare change => exact ⟨rfl, rfl⟩
  | call call reply =>
    rcases client.call_effect call reply with ⟨-, hclient⟩ | ⟨request, -, hsent, -⟩
    · exact ⟨congrArg Client.query hclient, congrArg Client.lastRequest hclient⟩
    · cases hsent.symm.trans h

theorem step_of_sent {operation : Operation} {request : Request}
    (h : client.sentBy step = some (operation, request)) :
    ∃ call reply, step = .call call reply ∧ call.Routes operation ∧
      call.request client.query = .ok request ∧
      (client.step step).query = client.query.reset ∧
      (client.step step).lastRequest = some request := by
  cases step with
  | declare change => cases h
  | call call reply =>
    rcases client.call_effect call reply with ⟨hsent, -⟩ | ⟨found, hfound, hsent, hclient⟩
    · cases hsent.symm.trans h
    · cases hsent.symm.trans h
      exact ⟨call, reply, rfl, Call.routes_iff.mpr rfl, hfound, congrArg Client.query hclient,
        congrArg Client.lastRequest hclient⟩

/-! ## Positions in a run -/

theorem after_take_succ (h : steps[position]? = some step) :
    client.after (steps.take (position + 1)) = (client.after (steps.take position)).step step := by
  rw [List.take_add_one, h, after, List.foldl_append]
  rfl

theorem sent_eq_filterMap (client : Client) (steps : List Step) :
    client.sent steps = (List.range steps.length).filterMap (client.sentAt steps) := by
  induction steps generalizing client with
  | nil => rfl
  | cons step steps ih =>
    have hlater : client.sentAt (step :: steps) ∘ Nat.succ = (client.step step).sentAt steps := by
      funext position
      simp [sentAt, after]
    rw [sent, ih, List.length_cons, List.range_succ_eq_map, List.filterMap_cons,
      List.filterMap_map, hlater]
    cases h : client.sentBy step with
    | none => simp [sentAt, after, h]
    | some entry => simp [sentAt, after, h]

theorem sentAt_of_mem_dispatches (h : position ∈ client.dispatches steps) :
    position < steps.length ∧ ∃ entry, client.sentAt steps position = some entry := by
  obtain ⟨hlt, hsome⟩ := List.mem_filter.mp h
  exact ⟨List.mem_range.mp hlt, Option.isSome_iff_exists.mp hsome⟩

end Client

section Positions

variable {α β : Type} {l : List α} {k n a : Nat}

/-- The values that a partial function has on a list stand in the order of the members that it
is defined at. -/
theorem getElem?_filterMap_eq (f : α → Option β) :
    (l.filterMap f)[k]? = (l.filter fun a => (f a).isSome)[k]?.bind f := by
  induction l generalizing k with
  | nil => simp
  | cons a l ih =>
    cases h : f a with
    | none => simp [h, ih]
    | some b =>
      cases k with
      | zero => simp [h]
      | succ k => simp [h, ih]

/-- What stands before a member of a filtered range is the filtered range up to it. -/
theorem take_filter_range {p : Nat → Bool} (h : ((List.range n).filter p)[k]? = some a) :
    ((List.range n).filter p).take k = (List.range a).filter p := by
  -- On `n`, as the range grows at its end and the filtered range keeps what stood there before.
  induction n with
  | zero => simp at h
  | succ n ih =>
    rw [List.range_succ, List.filter_append] at h ⊢
    by_cases hk : k < ((List.range n).filter p).length
    · rw [List.getElem?_append_left hk] at h
      rw [List.take_append_of_le_length (Nat.le_of_lt hk)]
      exact ih h
    · rw [List.getElem?_append_right (by omega)] at h
      have hmem : a ∈ [n].filter p := List.mem_of_getElem? h
      obtain rfl : a = n := List.mem_singleton.mp (List.mem_of_mem_filter hmem)
      have hzero : k - ((List.range a).filter p).length = 0 := by
        obtain ⟨hlt, -⟩ := List.getElem?_eq_some_iff.mp h
        have hle := List.length_filter_le p [a]
        simp only [List.length_singleton] at hle
        omega
      rw [List.take_append, hzero, List.take_zero, List.append_nil,
        List.take_of_length_le (by omega)]

end Positions

theorem replay_append (q : QueryState) (steps others : List Step) :
    replay q (steps ++ others) = replay (replay q steps) others :=
  List.foldl_append

namespace Client

variable {client : Client} {steps : List Step} {position k : Nat} {step : Step}

/-- A step that is no dispatch is replayed after those before it. -/
theorem replayed_succ {last : Option Nat} (hstep : steps[position]? = some step)
    (hlast : ∀ i ∈ last, i < position) :
    client.replayed steps last (position + 1) =
      replay (client.replayed steps last position) [step] := by
  have hlt : position < steps.length := (List.getElem?_eq_some_iff.mp hstep).1
  cases last with
  | none => simp only [replayed, List.take_add_one, hstep, replay_append, Option.toList_some]
  | some last =>
    have hle : last + 1 ≤ (steps.take position).length := by
      have := hlast last rfl
      rw [List.length_take]
      omega
    simp only [replayed, List.take_add_one, hstep, Option.toList_some,
      List.drop_append_of_le_length hle, replay_append]

/-- **The invariant of a run**: at any position the query of the client is the replay of what was
declared since the last dispatch. -/
theorem query_after_take (hposition : position ≤ steps.length) :
    (client.after (steps.take position)).query =
      client.replayed steps
        ((List.range position).filter fun i => (client.sentAt steps i).isSome).getLast?
        position := by
  induction position with
  | zero => rfl
  | succ position ih =>
    have hlt : position < steps.length := by omega
    obtain ⟨step, hstep⟩ : ∃ step, steps[position]? = some step :=
      ⟨_, List.getElem?_eq_getElem hlt⟩
    have hat : client.sentAt steps position =
        (client.after (steps.take position)).sentBy step := by
      rw [sentAt, hstep]
      rfl
    rw [after_take_succ hstep, List.range_succ, List.filter_append, List.filter_singleton, hat]
    -- Unless the step is a dispatch the last dispatch stays what it was; otherwise it is this step,
    -- and nothing is declared since.
    cases hsent : (client.after (steps.take position)).sentBy step with
    | none =>
      have hbefore : ∀ i ∈ ((List.range position).filter
          fun i => (client.sentAt steps i).isSome).getLast?, i < position := by
        intro i hi
        exact List.mem_range.mp (List.mem_of_mem_filter (List.mem_of_getLast? hi))
      rw [(step_of_unsent hsent).1, ih (by omega), ← replayed_succ hstep hbefore]
      simp
    | some entry =>
      obtain ⟨call, reply, -, -, -, hquery, -⟩ := step_of_sent hsent
      rw [hquery]
      simp [replayed, replay, QueryState.reset]

theorem dispatchBefore_eq (h : (client.dispatches steps)[k]? = some position) :
    client.dispatchBefore steps k =
      ((List.range position).filter fun i => (client.sentAt steps i).isSome).getLast? := by
  rw [← take_filter_range h, List.getLast?_take]
  cases k with
  | zero => rfl
  | succ k =>
    have hlt : k < (client.dispatches steps).length := by
      have := (List.getElem?_eq_some_iff.mp h).1
      omega
    change (client.dispatches steps)[k]? = _
    rw [if_neg (by omega), Nat.add_sub_cancel]
    change _ = (client.dispatches steps)[k]?.or _
    rw [List.getElem?_eq_getElem hlt]
    rfl

theorem sent_getElem? (client : Client) (steps : List Step) (k : Nat) :
    (client.sent steps)[k]? = (client.dispatches steps)[k]?.bind (client.sentAt steps) := by
  rw [sent_eq_filterMap, getElem?_filterMap_eq]
  rfl

/-- The `k`-th request of a run is the one that its call compiles to in the replayed query. -/
theorem request_of_dispatch (h : (client.dispatches steps)[k]? = some position) :
    ∃ call reply operation request, steps[position]? = some (.call call reply) ∧
      call.Routes operation ∧ (client.sent steps)[k]? = some (operation, request) ∧
      call.request (client.replayed steps (client.dispatchBefore steps k) position) =
        .ok request := by
  obtain ⟨hlt, ⟨operation, request⟩, hat⟩ := sentAt_of_mem_dispatches (List.mem_of_getElem? h)
  obtain ⟨step, hstep, hsent⟩ := Option.bind_eq_some_iff.mp hat
  obtain ⟨call, reply, rfl, hroutes, hrequest, -⟩ := step_of_sent hsent
  refine ⟨call, reply, operation, request, hstep, hroutes, ?_, ?_⟩
  · rw [sent_getElem?, h]
    exact hat
  · rw [dispatchBefore_eq h, ← query_after_take (by omega)]
    exact hrequest

end Client

end DocSearch
