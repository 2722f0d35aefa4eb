import DocSearch.Proofs.Runs
import Mathlib.Data.List.Forall2

/-!
# What a run logs

A call has entries to log; the client writes those that are grave enough for it. Nothing else
depends on how grave that is.

* `Call.entries`: all that a call has to log, with one equation for each of its outcomes.
* `Client.log_call`: what a client writes of it.
* `Client.observations_logging`, `Client.log_logging`: a run of a client with another least
  severity shows the same, and its log is filtered.
* `log_level_only_filters`: both, for two clients that have done nothing yet and runs that differ
  in the time they take.
-/

namespace DocSearch

/-! ## Logs -/

namespace Client

def logBy (client : Client) : Step → List Log.Entry
  | .declare _ => []
  | .call call reply => (client.call call reply).log

/-- What a run logs, in order. -/
def log (client : Client) : List Step → List Log.Entry
  | [] => []
  | step :: steps => client.logBy step ++ (client.step step).log steps

end Client

/-- All that a call has to log. -/
def Call.entries (call : Call) (q : QueryState) (reply : Reply) : List Log.Entry :=
  (({ query := q, minimum := .trace } : Client).call call reply).log

namespace Log

variable {minimum higher : Severity} {entries : List Entry}

theorem admitted_trace (entries : List Entry) : admitted .trace entries = entries := by
  apply List.filter_eq_self.mpr
  intro entry _
  exact decide_eq_true (Nat.zero_le _)

theorem admitted_admitted (h : minimum.rank ≤ higher.rank) :
    admitted higher (admitted minimum entries) = admitted higher entries := by
  rw [admitted, admitted, admitted, List.filter_filter]
  apply List.filter_congr
  intro entry _
  have hle : higher.rank ≤ entry.severity.rank → minimum.rank ≤ entry.severity.rank := by omega
  simpa [Severity.admits] using hle

end Log

section Entries

variable {call : Call} {q : QueryState} {reply other : Reply}

theorem Call.entries_of_bad_arguments {e : InvalidArgument} (h : call.check = .error e) :
    call.entries q reply = [] := by
  rw [Call.entries, Client.call_of_bad_arguments h]

theorem Call.entries_of_uncompiled (hargs : call.check = .ok ()) {e : CompileError}
    (h : call.request q = .error e) :
    call.entries q reply =
      [call.scope.begun, Client.rejectedEntry call.operation e, call.scope.failed e.code] := by
  rw [Call.entries, Client.call_of_uncompiled hargs h, Log.admitted_trace]

theorem Call.entries_of_compiled (hargs : call.check = .ok ()) {request : Request}
    (h : call.request q = .ok request) :
    call.entries q reply =
      call.scope.begun :: Client.compiledEntry call.requestName request ::
        Client.dispatchedEntry call.operation request :: Client.resetEntry request ::
          (Client.settleReply call request reply).2 ++
        [Client.endEntry call.scope reply.elapsed (Client.settleReply call request reply).1] := by
  rw [Call.entries, Client.call_of_compiled hargs h, Log.admitted_trace]

/-- A client writes the entries of a call that are grave enough. -/
theorem Client.log_call (client : Client) (call : Call) (reply : Reply) :
    (client.call call reply).log =
      Log.admitted client.minimum (call.entries client.query reply) := by
  cases call.fate client.query with
  | refused hcheck =>
    rw [call_of_bad_arguments hcheck, Call.entries_of_bad_arguments hcheck]
    rfl
  | uncompiled hcheck hrequest =>
    rw [call_of_uncompiled hcheck hrequest, Call.entries_of_uncompiled hcheck hrequest]
  | compiled hcheck hrequest =>
    rw [call_of_compiled hcheck hrequest, Call.entries_of_compiled hcheck hrequest]

/-! ## Elapsed times -/

/-- The entry with the digits of the elapsed time masked. -/
def Log.Entry.masked (entry : Log.Entry) : Log.Entry :=
  { entry with
    fields := entry.fields.map fun field =>
      if field.1 = "elapsed_ms" then (field.1, "0") else field }

/-- The steps are the same, up to the time that a call takes. -/
inductive Step.SameAnswer : Step → Step → Prop
  | declare (change : QueryState → QueryState) : SameAnswer (.declare change) (.declare change)
  | call (call : Call) (reply other : Reply) (h : other.answer = reply.answer) :
      SameAnswer (.call call reply) (.call call other)

theorem Client.settleReply_congr (h : other.answer = reply.answer) (request : Request) :
    settleReply call request other = settleReply call request reply := by
  unfold settleReply
  rw [h]

theorem Client.endEntry_masked (scope : Log.Scope) (elapsed longer : Nat)
    (settled : Except Error Outcome) :
    (endEntry scope longer settled).masked = (endEntry scope elapsed settled).masked := by
  cases settled with
  | error e => rfl
  | ok outcome =>
    simp [endEntry, Log.Scope.completed, Log.Scope.entry, Log.Entry.masked]

theorem Call.entries_masked (h : other.answer = reply.answer) :
    (call.entries q other).map Log.Entry.masked = (call.entries q reply).map Log.Entry.masked := by
  cases call.fate q with
  | refused hcheck =>
    rw [Call.entries_of_bad_arguments hcheck, Call.entries_of_bad_arguments hcheck]
  | uncompiled hcheck hrequest =>
    rw [Call.entries_of_uncompiled hcheck hrequest, Call.entries_of_uncompiled hcheck hrequest]
  | compiled hcheck hrequest =>
    rw [Call.entries_of_compiled hcheck hrequest, Call.entries_of_compiled hcheck hrequest,
      Client.settleReply_congr h]
    simp only [List.cons_append, List.map_cons, List.map_append, List.map_nil]
    rw [Client.endEntry_masked call.scope reply.elapsed other.elapsed]

theorem Log.admitted_masked (minimum : Log.Severity) (entries : List Log.Entry) :
    (Log.admitted minimum entries).map Log.Entry.masked =
      Log.admitted minimum (entries.map Log.Entry.masked) := by
  rw [Log.admitted, Log.admitted, List.filter_map]
  rfl

end Entries

/-! ## Clients with another least severity -/

/-- What a step shows: what the caller gets, if it is a call, what was sent, and the query and the
last request that are left. -/
structure Observation where
  result : Option (Except Error Outcome)
  sent : Option (Operation × Request)
  query : QueryState
  lastRequest : Option Request

namespace Client

variable {client : Client} {step other : Step} {steps others : List Step}

def resultOf (client : Client) : Step → Option (Except Error Outcome)
  | .declare _ => none
  | .call call reply => some (client.call call reply).result

def observe (client : Client) (step : Step) : Observation :=
  { result := client.resultOf step
    sent := client.sentBy step
    query := (client.step step).query
    lastRequest := (client.step step).lastRequest }

/-- What the steps of a run show, in order. -/
def observations (client : Client) : List Step → List Observation
  | [] => []
  | step :: steps => client.observe step :: (client.step step).observations steps

/-- The client with another least severity. -/
def logging (client : Client) (minimum : Log.Severity) : Client := { client with minimum }

theorem call_logging (client : Client) (minimum : Log.Severity) (call : Call)
    {reply other : Reply} (h : other.answer = reply.answer) :
    ((client.logging minimum).call call other).result = (client.call call reply).result ∧
      ((client.logging minimum).call call other).sent = (client.call call reply).sent ∧
      ((client.logging minimum).call call other).client =
        (client.call call reply).client.logging minimum := by
  cases call.fate client.query with
  | refused hcheck =>
    rw [call_of_bad_arguments hcheck, call_of_bad_arguments hcheck]
    exact ⟨rfl, rfl, rfl⟩
  | @uncompiled e hcheck hrequest =>
    have hlogging : call.request (client.logging minimum).query = .error e := hrequest
    rw [call_of_uncompiled hcheck hrequest, call_of_uncompiled hcheck hlogging]
    exact ⟨rfl, rfl, rfl⟩
  | @compiled request hcheck hrequest =>
    have hlogging : call.request (client.logging minimum).query = .ok request := hrequest
    rw [call_of_compiled hcheck hrequest, call_of_compiled hcheck hlogging, settleReply_congr h]
    exact ⟨rfl, rfl, rfl⟩

theorem step_logging (minimum : Log.Severity) (h : step.SameAnswer other) :
    (client.logging minimum).step other = (client.step step).logging minimum := by
  cases h with
  | declare change => rfl
  | call call reply other h => exact (client.call_logging minimum call h).2.2

theorem observe_logging (minimum : Log.Severity) (h : step.SameAnswer other) :
    (client.logging minimum).observe other = client.observe step := by
  have hstep : (client.logging minimum).step other = (client.step step).logging minimum :=
    step_logging minimum h
  rw [observe, observe, hstep]
  cases h with
  | declare change => rfl
  | call call reply other h =>
    obtain ⟨hresult, hsent, -⟩ := client.call_logging minimum call h
    simp only [resultOf, sentBy, hresult, hsent]
    rfl

/-- The least severity of a client stays what it is. -/
theorem step_minimum (client : Client) (step : Step) :
    (client.step step).minimum = client.minimum := by
  cases step with
  | declare change => rfl
  | call call reply =>
    rcases client.call_effect call reply with ⟨-, hclient⟩ | ⟨request, -, -, hclient⟩
    · exact congrArg Client.minimum hclient
    · have hminimum := congrArg Client.minimum hclient
      exact hminimum

theorem logBy_logging {minimum : Log.Severity} (hle : client.minimum.rank ≤ minimum.rank)
    (h : step.SameAnswer other) :
    ((client.logging minimum).logBy other).map Log.Entry.masked =
      Log.admitted minimum ((client.logBy step).map Log.Entry.masked) := by
  cases h with
  | declare change => rfl
  | call call reply other h =>
    rw [logBy, logBy, log_call, log_call, Log.admitted_masked, Log.admitted_masked,
      Log.admitted_admitted hle, logging, Call.entries_masked h]

theorem observations_logging (minimum : Log.Severity)
    (h : List.Forall₂ Step.SameAnswer steps others) :
    (client.logging minimum).observations others = client.observations steps := by
  induction h generalizing client with
  | nil => rfl
  | @cons step other steps others hstep _ ih =>
    rw [observations, observations, observe_logging minimum hstep, step_logging minimum hstep, ih]

theorem log_logging {minimum : Log.Severity} (hle : client.minimum.rank ≤ minimum.rank)
    (h : List.Forall₂ Step.SameAnswer steps others) :
    ((client.logging minimum).log others).map Log.Entry.masked =
      Log.admitted minimum ((client.log steps).map Log.Entry.masked) := by
  induction h generalizing client with
  | nil => rfl
  | @cons step other steps others hstep _ ih =>
    have hrest : (client.step step).minimum.rank ≤ minimum.rank := by
      rw [step_minimum]
      exact hle
    rw [log, log, List.map_append, List.map_append, logBy_logging hle hstep,
      step_logging minimum hstep, ih hrest, Log.admitted, Log.admitted, Log.admitted,
      List.filter_append]

end Client

/-- **The log level only filters the log.** Of two clients that have done nothing yet, and of runs
that get the same answers, the one with the higher least severity shows the same at every step. On
either stream it writes those lines of the other, in their order, that are of its least severity
or a higher one; elapsed times apart. -/
theorem log_level_only_filters {lower higher : Log.Severity} (hle : lower.rank ≤ higher.rank)
    {steps others : List Step} (hsteps : List.Forall₂ Step.SameAnswer steps others) :
    let talkative : Client := { minimum := lower }
    let quiet : Client := { minimum := higher }
    quiet.observations others = talkative.observations steps ∧
      ∀ stream, Log.linesOf stream ((quiet.log others).map Log.Entry.masked) =
        ((((talkative.log steps).map Log.Entry.masked).filter fun entry =>
          entry.stream = stream).filter fun entry =>
            higher.rank ≤ entry.severity.rank).map Log.Entry.line := by
  intro talkative quiet
  have hquiet : quiet = talkative.logging higher := rfl
  refine ⟨hquiet ▸ Client.observations_logging higher hsteps, fun stream => ?_⟩
  rw [hquiet, Client.log_logging hle hsteps, Log.linesOf, Log.admitted, List.filter_filter,
    List.filter_filter]
  refine congrArg (List.map Log.Entry.line) (List.filter_congr fun entry _ => ?_)
  exact Bool.and_comm _ _

/-- A search and a deletion that the engine refuses, by a client that logs all and by one that logs
failures only and waits longer. -/
theorem log_level_only_filters_refused :
    let found : Except TransportError Json := .ok (.object [])
    let refused : Except TransportError Json := .ok (.object [("result", .text "gone")])
    let steps : List Step :=
      [.declare (·.setIndex "users"), .call .rawSearch ⟨found, 3⟩,
        .call (.delete "7") ⟨refused, 5⟩]
    let others : List Step :=
      [.declare (·.setIndex "users"), .call .rawSearch ⟨found, 40⟩,
        .call (.delete "7") ⟨refused, 0⟩]
    let talkative : Client := { minimum := .trace }
    let quiet : Client := { minimum := .warn }
    Log.Severity.rank .trace ≤ Log.Severity.rank .warn ∧
      List.Forall₂ Step.SameAnswer steps others ∧
      quiet.observations others = talkative.observations steps ∧
      (quiet.log others).map Log.Entry.event = ["UNEXPECTED_RESULT", "DELETE_FAILED"] ∧
      Log.linesOf .stdout ((quiet.log others).map Log.Entry.masked) =
        ((((talkative.log steps).map Log.Entry.masked).filter fun entry =>
          entry.stream = .stdout).filter fun entry =>
            Log.Severity.rank .warn ≤ entry.severity.rank).map Log.Entry.line := by
  intro found refused steps others talkative quiet
  have hle : Log.Severity.rank .trace ≤ Log.Severity.rank .warn := by decide
  have hsteps : List.Forall₂ Step.SameAnswer steps others :=
    .cons (.declare _) (.cons (.call _ _ _ rfl) (.cons (.call _ _ _ rfl) .nil))
  obtain ⟨hsame, hlines⟩ := log_level_only_filters hle hsteps
  have hevents : (quiet.log others).map Log.Entry.event =
      ["UNEXPECTED_RESULT", "DELETE_FAILED"] := by
    decide +kernel
  exact ⟨hle, hsteps, hsame, hevents, hlines .stdout⟩

end DocSearch
