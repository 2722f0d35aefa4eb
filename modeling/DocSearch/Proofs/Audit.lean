import DocSearch.Proofs.Logs

/-!
# The log as an audit

A client that logs everything tells with each call what became of it: the events of a call follow
one of four patterns, and which of them it is depends on the arguments, on whether the request
compiles and on whether the transport answers. What was sent can be read back from the log.

* `Call.Trace`: the patterns.
* `Call.trace_entries`: the events of a call follow them.
* `Client.count_event`, `Client.compiledRequests_log`: what the log of a run says of the requests
  that it sent.
* `log_audits_run`: all of this, for any run of a client that has done nothing yet.
-/

namespace DocSearch

/-! ## Patterns -/

/-- The event of an entry of the scope of a call. -/
def Call.mark (call : Call) (ending : String) : String := call.scope.name ++ "_" ++ ending

/-- The events that report what an answer amounts to. -/
def Call.reports : Call → List Log.Event
  | .create .. => [.documentCreated, .unexpectedResult]
  | .update .. => [.documentUpdated, .unexpectedResult]
  | .delete _ => [.documentDeleted, .unexpectedResult]
  | .flush => [.indexFlushed]
  | .rawSearch | .first | .list | .paginate .. => [.searchCompleted]

/-- The events that a call logs, from a query and with a reply. -/
inductive Call.Trace (call : Call) (q : QueryState) (reply : Reply) : List String → Prop
  | refused (hargs : call.BadArguments) : Trace call q reply []
  | rejected {e : CompileError} (hargs : ¬ call.BadArguments)
      (hrequest : call.request q = .error e) :
      Trace call q reply [call.mark "BEGIN", "REQUEST_REJECTED", call.mark "FAILED"]
  | undelivered {request : Request} {e : TransportError} (hargs : ¬ call.BadArguments)
      (hrequest : call.request q = .ok request) (hanswer : reply.answer = .error e) :
      Trace call q reply
        [call.mark "BEGIN", "REQUEST_COMPILED", "REQUEST_DISPATCHED", "STATE_RESET",
          "TRANSPORT_FAILED", call.mark "FAILED"]
  | answered {request : Request} {answer : Json} {report : Log.Event}
      (hargs : ¬ call.BadArguments) (hrequest : call.request q = .ok request)
      (hanswer : reply.answer = .ok answer) (hreport : report ∈ call.reports) :
      Trace call q reply
        [call.mark "BEGIN", "REQUEST_COMPILED", "REQUEST_DISPATCHED", "STATE_RESET",
          report.name, call.mark (if report = .unexpectedResult then "FAILED" else "COMPLETE")]

/-! ## Events and marks -/

namespace Log.Event

variable {event other : Event} {fields : List (String × String)}

theorem ofName?_name (event : Event) : ofName? event.name = some event := by
  cases event <;> rfl

theorem name_injective : Function.Injective name := by
  intro event other h
  have hsome : some event = some other := by rw [← ofName?_name, ← ofName?_name, h]
  exact Option.some.inj hsome

theorem ne_name_of_ofName? {text : String} (h : ofName? text = none) : text ≠ event.name := by
  rintro rfl
  cases h.symm.trans (ofName?_name event)

theorem stream_entry_eq_stderr_iff :
    (event.entry fields).stream = .stderr ↔ event = .unexpectedResult := by
  cases event <;> simp [entry, Entry.ofSeverity, severity, Severity.admits, Severity.rank]

end Log.Event

/-- The names of scopes. -/
def scopeNames : List String := ["CREATE", "UPDATE", "DELETE", "FLUSH", "SEARCH"]

/-- The endings of the entries that calls log in their scopes. -/
def scopeEndings : List String := ["BEGIN", "COMPLETE", "FAILED"]

theorem ofName?_scope : ∀ name ∈ scopeNames, ∀ ending ∈ "INCOMPLETE" :: scopeEndings,
    Log.Event.ofName? (name ++ "_" ++ ending) = none := by
  decide

theorem scope_ne_incomplete : ∀ name ∈ scopeNames, ∀ ending ∈ scopeEndings,
    name ++ "_" ++ ending ≠ name ++ "_" ++ "INCOMPLETE" := by
  decide

section Marks

variable {call : Call} {q : QueryState} {reply : Reply} {entry : Log.Entry} {ending : String}
  {event : Log.Event}

theorem Call.scope_name_mem (call : Call) : call.scope.name ∈ scopeNames := by
  cases call <;> simp [Call.scope, scopeNames]

theorem Call.mark_ne_name (h : ending ∈ scopeEndings) : call.mark ending ≠ event.name := by
  apply Log.Event.ne_name_of_ofName?
  exact ofName?_scope call.scope.name call.scope_name_mem ending (List.mem_cons_of_mem _ h)

theorem Call.mark_ne_incomplete (h : ending ∈ scopeEndings) :
    call.mark ending ≠ call.mark "INCOMPLETE" :=
  scope_ne_incomplete call.scope.name call.scope_name_mem ending h

theorem Call.name_ne_incomplete : event.name ≠ call.mark "INCOMPLETE" := by
  apply Ne.symm
  apply Log.Event.ne_name_of_ofName?
  exact ofName?_scope call.scope.name call.scope_name_mem "INCOMPLETE" List.mem_cons_self

/-! ## One call -/

/-- The answer to a write that succeeds with an event is reported by it or as unexpected. -/
theorem Call.exists_report_of_settleWrite {answer : Json} {success : Log.Event}
    (hsuccess : success ≠ .unexpectedResult)
    (hwritten : ∀ status, ∃ fields, (call.written answer status).2 = [success.entry fields]) :
    ∃ report ∈ [success, .unexpectedResult], ∃ fields,
      (call.settleWrite answer).2 = [report.entry fields] ∧
        ((∃ e, (call.settleWrite answer).1 = .error e) ↔ report = .unexpectedResult) := by
  unfold Call.settleWrite
  dsimp only
  split
  · rename_i status _
    obtain ⟨fields, hfields⟩ := hwritten status
    refine ⟨success, List.mem_cons_self, fields, hfields, iff_of_false ?_ hsuccess⟩
    rintro ⟨e, he⟩
    cases he
  · refine ⟨.unexpectedResult, List.mem_cons_of_mem _ List.mem_cons_self, _, rfl, ?_⟩
    exact iff_of_true ⟨_, rfl⟩ rfl

/-- The answer to a call is reported by one event. -/
theorem Call.exists_report (call : Call) (request : Request) (answer : Json) :
    ∃ report ∈ call.reports, ∃ fields, (call.settle request answer).2 = [report.entry fields] ∧
      ((∃ e, (call.settle request answer).1 = .error e) ↔ report = .unexpectedResult) := by
  cases call with
  | create document idField =>
    exact Call.exists_report_of_settleWrite (by decide) fun status => ⟨_, rfl⟩
  | update id changes =>
    exact Call.exists_report_of_settleWrite (by decide) fun status => ⟨_, rfl⟩
  | delete id => exact Call.exists_report_of_settleWrite (by decide) fun status => ⟨_, rfl⟩
  | flush => exact ⟨.indexFlushed, by simp [Call.reports], _, rfl, by simp [Call.settle]⟩
  | _ => exact ⟨.searchCompleted, by simp [Call.reports], _, rfl, by simp [Call.settle]⟩

section Compiled

variable {request : Request} {e : TransportError} {answer : Json}

theorem Call.entries_of_undelivered (hargs : call.check = .ok ())
    (hrequest : call.request q = .ok request) (hanswer : reply.answer = .error e) :
    call.entries q reply =
      [call.scope.begun, Client.compiledEntry call.requestName request,
        Client.dispatchedEntry call.operation request, Client.resetEntry request,
        Client.failedEntry call.operation e, call.scope.failed (call.translate e).code] := by
  have hsettled : Client.settleReply call request reply =
      (.error (call.translate e), [Client.failedEntry call.operation e]) := by
    unfold Client.settleReply
    rw [hanswer]
  rw [Call.entries_of_compiled hargs hrequest, hsettled]
  rfl

theorem Call.entries_of_answered (hargs : call.check = .ok ())
    (hrequest : call.request q = .ok request) (hanswer : reply.answer = .ok answer) :
    ∃ report ∈ call.reports, ∃ fields severity extra, call.entries q reply =
      [call.scope.begun, Client.compiledEntry call.requestName request,
        Client.dispatchedEntry call.operation request, Client.resetEntry request,
        report.entry fields,
        call.scope.entry severity
          (if report = .unexpectedResult then "FAILED" else "COMPLETE") extra] := by
  obtain ⟨report, hreport, fields, hfields, hunexpected⟩ := call.exists_report request answer
  have hsettled : Client.settleReply call request reply = call.settle request answer := by
    unfold Client.settleReply
    rw [hanswer]
  rw [Call.entries_of_compiled hargs hrequest, hsettled, hfields]
  cases hresult : (call.settle request answer).1 with
  | error e =>
    have hreported : report = .unexpectedResult := hunexpected.mp ⟨e, hresult⟩
    refine ⟨report, hreport, fields, .warn, [("reason", e.code)], ?_⟩
    rw [if_pos hreported]
    rfl
  | ok outcome =>
    have hexpected : report ≠ .unexpectedResult := by
      intro hreported
      obtain ⟨e, he⟩ := hunexpected.mpr hreported
      cases hresult.symm.trans he
    refine ⟨report, hreport, fields, .info,
      [("elapsed_ms", String.ofList (Nat.toDigits 10 reply.elapsed))], ?_⟩
    rw [if_neg hexpected]
    rfl

end Compiled

/-- The events of a call follow one of the patterns. -/
theorem Call.trace_entries (call : Call) (q : QueryState) (reply : Reply) :
    call.Trace q reply ((call.entries q reply).map Log.Entry.event) := by
  cases call.fate q with
  | @refused e hcheck =>
    rw [Call.entries_of_bad_arguments hcheck]
    exact .refused (Call.check_eq_error_iff.mp ⟨e, hcheck⟩)
  | uncompiled hcheck hrequest =>
    rw [Call.entries_of_uncompiled hcheck hrequest]
    exact .rejected (Call.check_eq_ok_iff.mp hcheck) hrequest
  | compiled hcheck hrequest =>
    have hargs := Call.check_eq_ok_iff.mp hcheck
    cases hanswer : reply.answer with
    | error e =>
      rw [Call.entries_of_undelivered hcheck hrequest hanswer]
      exact .undelivered hargs hrequest hanswer
    | ok answer =>
      obtain ⟨report, hreport, fields, severity, extra, hentries⟩ :=
        Call.entries_of_answered hcheck hrequest hanswer
      rw [hentries]
      exact .answered hargs hrequest hanswer hreport

/-- The entries of a call are those of its scope and those of the events of the library. -/
inductive Call.Logs (call : Call) : Log.Entry → Prop
  | scope {severity : Log.Severity} {ending : String} {extra : List (String × String)}
      (h : ending ∈ scopeEndings) : Logs call (call.scope.entry severity ending extra)
  | event (event : Log.Event) (fields : List (String × String)) : Logs call (event.entry fields)

theorem Call.logs_of_mem_entries : ∀ entry ∈ call.entries q reply, call.Logs entry := by
  have hbegun : call.Logs call.scope.begun := .scope (by decide)
  have hfailed : ∀ reason, call.Logs (call.scope.failed reason) := fun _ => .scope (by decide)
  cases call.fate q with
  | refused hcheck =>
    rw [Call.entries_of_bad_arguments hcheck]
    exact List.forall_mem_nil _
  | uncompiled hcheck hrequest =>
    rw [Call.entries_of_uncompiled hcheck hrequest]
    simp only [List.forall_mem_cons]
    exact ⟨hbegun, .event .requestRejected _, hfailed _, List.forall_mem_nil _⟩
  | @compiled request hcheck hrequest =>
    have hcompiled : ∀ operation, call.Logs (Client.compiledEntry operation request) :=
      fun _ => .event .requestCompiled _
    have hdispatched : ∀ operation, call.Logs (Client.dispatchedEntry operation request) :=
      fun _ => .event .requestDispatched _
    have hreset : call.Logs (Client.resetEntry request) := .event .stateReset _
    cases hanswer : reply.answer with
    | error e =>
      rw [Call.entries_of_undelivered hcheck hrequest hanswer]
      simp only [List.forall_mem_cons]
      exact ⟨hbegun, hcompiled _, hdispatched _, hreset, .event .transportFailed _, hfailed _,
        List.forall_mem_nil _⟩
    | ok answer =>
      obtain ⟨report, -, fields, severity, extra, hentries⟩ :=
        Call.entries_of_answered hcheck hrequest hanswer
      have hend : (if report = .unexpectedResult then "FAILED" else "COMPLETE") ∈ scopeEndings := by
        split <;> decide
      rw [hentries]
      simp only [List.forall_mem_cons]
      exact ⟨hbegun, hcompiled _, hdispatched _, hreset, .event report _, .scope hend,
        List.forall_mem_nil _⟩

theorem Call.Logs.ne_incomplete (h : call.Logs entry) :
    entry.event ≠ call.mark "INCOMPLETE" := by
  cases h with
  | scope hending => exact Call.mark_ne_incomplete hending
  | event event fields => exact Call.name_ne_incomplete

/-- The only entry on the stream for errors is that of an unexpected result. -/
theorem Call.Logs.stream_eq_stderr_iff (h : call.Logs entry) :
    entry.stream = .stderr ↔ entry.event = "UNEXPECTED_RESULT" := by
  cases h with
  | scope hending =>
    have hne : call.mark _ ≠ Log.Event.unexpectedResult.name := Call.mark_ne_name hending
    exact iff_of_false (by simp [Log.Scope.entry]) hne
  | event event fields =>
    have hname : event.name = Log.Event.unexpectedResult.name ↔ event = .unexpectedResult :=
      Log.Event.name_injective.eq_iff
    exact Log.Event.stream_entry_eq_stderr_iff.trans hname.symm

/-! ## What was sent -/

/-- The events that tell of a request that is sent. -/
def sendingEvents : List Log.Event := [.requestCompiled, .requestDispatched, .stateReset]

theorem count_sendingEvents : ∀ event ∈ sendingEvents,
    ["REQUEST_COMPILED", "REQUEST_DISPATCHED", "STATE_RESET"].count event.name = 1 := by
  decide

theorem Call.name_ne_of_mem_reports {report : Log.Event} (h : report ∈ call.reports)
    (hevent : event ∈ sendingEvents) : report.name ≠ event.name := by
  have hdisjoint : report ∉ sendingEvents := by
    revert report
    cases call <;> simp [Call.reports, sendingEvents]
  intro heq
  rw [Log.Event.name_injective heq] at hdisjoint
  exact hdisjoint hevent

/-- Of a request that is sent every such event tells once. -/
theorem Call.count_sent {outcome : String} (houtcome : outcome ≠ event.name)
    (hending : ending ∈ scopeEndings) (hevent : event ∈ sendingEvents) :
    [call.mark "BEGIN", "REQUEST_COMPILED", "REQUEST_DISPATCHED", "STATE_RESET", outcome,
      call.mark ending].count event.name = 1 := by
  have hbegin : call.mark "BEGIN" ≠ event.name := Call.mark_ne_name (by decide)
  have hend : call.mark ending ≠ event.name := Call.mark_ne_name hending
  have hrest : [outcome, call.mark ending].count event.name = 0 := by
    rw [List.count_cons_of_ne houtcome, List.count_cons_of_ne hend, List.count_nil]
  calc _ = (["REQUEST_COMPILED", "REQUEST_DISPATCHED", "STATE_RESET"] ++
        [outcome, call.mark ending]).count event.name := List.count_cons_of_ne hbegin
    _ = 1 := by rw [List.count_append, count_sendingEvents event hevent, hrest]

theorem Client.count_call (client : Client) (call : Call) (reply : Reply)
    (hevent : event ∈ sendingEvents) :
    ((call.entries client.query reply).map Log.Entry.event).count event.name =
      (client.call call reply).sent.toList.length := by
  have htrace := call.trace_entries client.query reply
  generalize (call.entries client.query reply).map Log.Entry.event = events at htrace ⊢
  cases htrace with
  | refused hargs =>
    obtain ⟨e, he⟩ := Call.check_eq_error_iff.mpr hargs
    rw [Client.call_of_bad_arguments he]
    rfl
  | rejected hargs hrequest =>
    have hbegin : call.mark "BEGIN" ≠ event.name := Call.mark_ne_name (by decide)
    have hfailed : call.mark "FAILED" ≠ event.name := Call.mark_ne_name (by decide)
    have hrejected : "REQUEST_REJECTED" ≠ event.name := by
      revert event
      simp [sendingEvents, Log.Event.name]
    rw [Client.call_of_uncompiled (Call.check_eq_ok_iff.mpr hargs) hrequest,
      List.count_cons_of_ne hbegin, List.count_cons_of_ne hrejected,
      List.count_cons_of_ne hfailed]
    rfl
  | undelivered hargs hrequest hanswer =>
    have hfailed : "TRANSPORT_FAILED" ≠ event.name := by
      revert event
      simp [sendingEvents, Log.Event.name]
    rw [Client.call_of_compiled (Call.check_eq_ok_iff.mpr hargs) hrequest]
    exact Call.count_sent hfailed (by decide) hevent
  | answered hargs hrequest hanswer hreport =>
    rw [Client.call_of_compiled (Call.check_eq_ok_iff.mpr hargs) hrequest]
    refine Call.count_sent (Call.name_ne_of_mem_reports hreport hevent) ?_ hevent
    split <;> decide

/-- The texts of requests in the entries that tell of a compiled one. -/
def Log.compiledRequests (entries : List Log.Entry) : List (Option String) :=
  (entries.filter fun entry => entry.event = Log.Event.requestCompiled.name).map fun entry =>
    entry.fields.lookup "request"

theorem Log.compiledRequests_append (entries others : List Log.Entry) :
    compiledRequests (entries ++ others) = compiledRequests entries ++ compiledRequests others := by
  rw [compiledRequests, List.filter_append, List.map_append]
  rfl

theorem Log.compiledRequests_of_count {entries : List Log.Entry}
    (h : (entries.map Log.Entry.event).count Log.Event.requestCompiled.name = 0) :
    compiledRequests entries = [] := by
  have hnil : entries.filter (fun entry => entry.event = Log.Event.requestCompiled.name) = [] := by
    apply List.filter_eq_nil_iff.mpr
    intro entry hentry hevent
    refine List.count_eq_zero.mp h (List.mem_map.mpr ⟨entry, hentry, ?_⟩)
    exact of_decide_eq_true hevent
  rw [compiledRequests, hnil, List.map_nil]

/-- The request that a call sends is the one in its log. -/
theorem Client.compiledRequests_call (client : Client) (call : Call) (reply : Reply) :
    Log.compiledRequests (call.entries client.query reply) =
      (client.call call reply).sent.toList.map fun sent => some sent.2.compact := by
  have hevent : .requestCompiled ∈ sendingEvents := by decide
  have hcount := client.count_call call reply hevent
  rcases client.call_effect call reply with ⟨hsent, -⟩ | ⟨request, hrequest, hsent, -⟩
  · rw [hsent] at hcount ⊢
    exact Log.compiledRequests_of_count hcount
  · have hcheck : call.check = .ok () := by
      cases hcheck : call.check with
      | error e =>
        rw [call_of_bad_arguments hcheck] at hsent
        cases hsent
      | ok _ => rfl
    have hbegin : call.scope.begun.event ≠ Log.Event.requestCompiled.name :=
      Call.mark_ne_name (by decide)
    rw [hsent] at hcount ⊢
    -- the event of a compiled request is there once, so nothing after the entry has it
    rw [Call.entries_of_compiled hcheck hrequest] at hcount ⊢
    simp only [List.cons_append, List.map_cons] at hcount ⊢
    rw [List.count_cons_of_ne hbegin] at hcount
    have hrest := Nat.succ.inj (List.count_cons_self.symm.trans hcount)
    rw [Log.compiledRequests, List.filter_cons_of_neg (by simpa using hbegin),
      List.filter_cons_of_pos (by rfl), List.map_cons]
    exact congrArg (_ :: ·) (Log.compiledRequests_of_count hrest)

end Marks

/-! ## A whole run -/

namespace Client

variable {client : Client} {event : Log.Event}

theorem minimum_after (client : Client) (steps : List Step) :
    (client.after steps).minimum = client.minimum := by
  induction steps generalizing client with
  | nil => rfl
  | cons step steps ih => exact (ih (client.step step)).trans (client.step_minimum step)

theorem logBy_call_of_trace (hclient : client.minimum = .trace) (call : Call) (reply : Reply) :
    client.logBy (.call call reply) = call.entries client.query reply := by
  rw [logBy, log_call, hclient, Log.admitted_trace]

/-- Each of the sending events is there as often as there are requests sent. -/
theorem count_event (hclient : client.minimum = .trace) (hevent : event ∈ sendingEvents)
    (steps : List Step) :
    ((client.log steps).map Log.Entry.event).count event.name = (client.sent steps).length := by
  induction steps generalizing client with
  | nil => rfl
  | cons step steps ih =>
    have hstep : (client.step step).minimum = .trace := (client.step_minimum step).trans hclient
    rw [log, sent, List.map_append, List.count_append, List.length_append, ih hstep]
    cases step with
    | declare change => rfl
    | call call reply =>
      rw [logBy_call_of_trace hclient, client.count_call call reply hevent, sentBy]

theorem compiledRequests_log (hclient : client.minimum = .trace) (steps : List Step) :
    Log.compiledRequests (client.log steps) =
      (client.sent steps).map fun sent => some sent.2.compact := by
  induction steps generalizing client with
  | nil => rfl
  | cons step steps ih =>
    have hstep : (client.step step).minimum = .trace := (client.step_minimum step).trans hclient
    rw [log, sent, Log.compiledRequests_append, List.map_append, ih hstep]
    cases step with
    | declare change => rfl
    | call call reply =>
      rw [logBy_call_of_trace hclient, client.compiledRequests_call call reply, sentBy]

end Client

/-- **The log is an audit.** In any run of a client that logs everything and has done nothing yet,
the events of each call follow one of the patterns, no scope is left without an end, and only an
unexpected result is written to the stream for errors. Over the run there are as many compiled,
dispatched and reset requests in the log as were sent, and the compiled ones have the texts of
those that were sent, in the same order. -/
theorem log_audits_run (steps : List Step) :
    let client : Client := { minimum := .trace }
    (∀ (position : Nat) (call : Call) (reply : Reply),
      steps[position]? = some (.call call reply) →
        let before := client.after (steps.take position)
        let entries := before.logBy (.call call reply)
        call.Trace before.query reply (entries.map Log.Entry.event) ∧
          ∀ entry ∈ entries, entry.event ≠ call.mark "INCOMPLETE" ∧
            (entry.stream = .stderr ↔ entry.event = "UNEXPECTED_RESULT")) ∧
      (∀ event ∈ sendingEvents,
        ((client.log steps).map Log.Entry.event).count event.name = (client.sent steps).length) ∧
      Log.compiledRequests (client.log steps) =
        (client.sent steps).map fun sent => some sent.2.compact := by
  intro client
  refine ⟨?_, fun event hevent => Client.count_event rfl hevent steps,
    Client.compiledRequests_log rfl steps⟩
  intro position call reply _ before entries
  have hentries : entries = call.entries before.query reply :=
    Client.logBy_call_of_trace (client.minimum_after _) call reply
  rw [hentries]
  refine ⟨call.trace_entries before.query reply, fun entry hentry => ?_⟩
  have hlogs := call.logs_of_mem_entries entry hentry
  exact ⟨hlogs.ne_incomplete, hlogs.stream_eq_stderr_iff⟩

/-- A deletion that the engine refuses, a page that is none and a request that does not arrive. -/
theorem log_audits_run_refused :
    let refused : Reply := ⟨.ok (.object [("result", .text "gone")]), 5⟩
    let failed : Reply := ⟨.error (.failed "timeout"), 30⟩
    let steps : List Step :=
      [.declare (·.setIndex "users"), .call (.delete "7") refused, .call (.paginate 0 5) failed,
        .call .flush failed]
    let client : Client := { minimum := .trace }
    steps[1]? = some (.call (.delete "7") refused) ∧
      Call.Trace (.delete "7") (.forIndex "users") refused
        ["DELETE_BEGIN", "REQUEST_COMPILED", "REQUEST_DISPATCHED", "STATE_RESET",
          "UNEXPECTED_RESULT", "DELETE_FAILED"] ∧
      ((client.log steps).map Log.Entry.event).count "STATE_RESET" = 2 ∧
      Log.compiledRequests (client.log steps) =
        [some "\x7b\"id\":\"7\",\"index\":\"users\"\x7d",
          some ("\x7b\"body\":\x7b\"query\":\x7b\"match_all\":\x7b\x7d\x7d\x7d," ++
            "\"index\":\"users\"\x7d")] := by
  intro refused failed steps client
  obtain ⟨hcalls, hcounts, hrequests⟩ := log_audits_run steps
  obtain ⟨htrace, -⟩ := hcalls 1 (.delete "7") refused rfl
  have hevents : ((client.after (steps.take 1)).logBy (.call (.delete "7") refused)).map
      Log.Entry.event =
        ["DELETE_BEGIN", "REQUEST_COMPILED", "REQUEST_DISPATCHED", "STATE_RESET",
          "UNEXPECTED_RESULT", "DELETE_FAILED"] := by
    decide +kernel
  rw [hevents] at htrace
  exact ⟨rfl, htrace, hcounts .stateReset (by decide), hrequests.trans (by decide +kernel)⟩

end DocSearch
