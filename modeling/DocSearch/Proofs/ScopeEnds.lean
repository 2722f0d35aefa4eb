import DocSearch.Proofs.Audit

/-!
# How scopes end

The entry that ends the scope of a call tells what came of the request: the scope is completed once
the engine has answered as it should, and fails with the code of the error otherwise. A search ends
its scope before its answer is decoded. So a call that fails because its answer cannot be decoded,
or has no first document, leaves a completed scope.

* `Call.deliver_cases`, `Client.not_isDecode_of_settleReply`: an error of decoding comes from what
  is delivered after the scope, and from nothing else.
* `scope_end_iff`: which end a scope has, in terms of what the caller gets.
-/

namespace DocSearch

/-- The calls that decode the answer to a search. -/
def Call.Decodes : Call → Prop
  | .first | .list | .paginate .. => True
  | _ => False

/-- The error is about an answer that was decoded. -/
def Error.IsDecode (e : Error) : Prop := ∃ fault, e = .decode fault

/-! ## Within the scope and after it -/

section Settled

variable {call : Call} {request : Request} {reply : Reply} {outcome : Outcome} {e : Error}

theorem Call.decodePage_cases (request : Request) (answer : Json) :
    (∃ given, decodePage request answer = .ok given) ∨
      ∃ e, decodePage request answer = .error e ∧ e.IsDecode := by
  unfold decodePage
  split
  · exact Or.inl ⟨_, rfl⟩
  · exact Or.inr ⟨_, rfl, _, rfl⟩

theorem Call.decodeFirst_cases (request : Request) (answer : Json) :
    (∃ given, decodeFirst request answer = .ok given) ∨
      ∃ e, decodeFirst request answer = .error e ∧ e.IsDecode := by
  unfold decodeFirst
  split
  · exact Or.inl ⟨_, rfl⟩
  · exact Or.inr ⟨_, rfl, _, rfl⟩

theorem Call.deliver_cases (call : Call) (request : Request) (outcome : Outcome) :
    (∃ given, call.deliver request outcome = .ok given) ∨
      (∃ e, call.deliver request outcome = .error e ∧ e.IsDecode) ∧ call.Decodes := by
  unfold Call.deliver
  split
  · exact (decodeFirst_cases request _).imp_right (⟨·, trivial⟩)
  · exact (decodePage_cases request _).imp_right (⟨·, trivial⟩)
  · exact (decodePage_cases request _).imp_right (⟨·, trivial⟩)
  · exact Or.inl ⟨_, rfl⟩

/-- The errors that the reply to a request amounts to within the scope of its call. -/
inductive Call.ReplyError (call : Call) : Error → Prop
  | translated (failure : TransportError) : ReplyError call (call.translate failure)
  | unexpected (status : String) : ReplyError call (.unexpectedResult status)

/-- No reply amounts to an error of compiling or of decoding. -/
theorem Call.ReplyError.ne (h : call.ReplyError e) :
    (∀ fault, e ≠ .compile fault) ∧ ∀ fault, e ≠ .decode fault := by
  cases h with
  | translated failure =>
    unfold Call.translate
    split <;> exact ⟨nofun, nofun⟩
  | unexpected status => exact ⟨nofun, nofun⟩

theorem Call.replyError_of_settleWrite {answer : Json}
    (h : (call.settleWrite answer).1 = .error e) : call.ReplyError e := by
  unfold Call.settleWrite at h
  dsimp only at h
  split at h <;> cases h
  exact .unexpected _

theorem Call.replyError_of_settle {answer : Json}
    (h : (call.settle request answer).1 = .error e) : call.ReplyError e := by
  cases call with
  | create document idField => exact Call.replyError_of_settleWrite h
  | update id changes => exact Call.replyError_of_settleWrite h
  | delete id => exact Call.replyError_of_settleWrite h
  | _ => cases h

theorem Client.replyError_of_settleReply
    (h : (settleReply call request reply).1 = .error e) : call.ReplyError e := by
  unfold settleReply at h
  split at h
  · cases h
    exact .translated _
  · exact Call.replyError_of_settle h

/-- What comes of a request within the scope of its call is no error of decoding. -/
theorem Client.not_isDecode_of_settleReply
    (h : (settleReply call request reply).1 = .error e) : ¬ e.IsDecode :=
  fun ⟨fault, hfault⟩ => (replyError_of_settleReply h).ne.2 fault hfault

end Settled

/-! ## The end of a scope -/

section Ends

variable {scope : Log.Scope} {elapsed : Nat} {reason other : String}

theorem Log.Scope.completed_ne_failed :
    scope.completed elapsed [] ≠ scope.failed reason := by
  intro h
  cases congrArg Log.Entry.severity h

theorem Log.Scope.failed_inj : scope.failed reason = scope.failed other ↔ reason = other := by
  refine ⟨fun h => ?_, fun h => h ▸ rfl⟩
  have hfields := List.append_cancel_left (congrArg Log.Entry.fields h)
  simpa using hfields

variable {client : Client} {call : Call} {reply : Reply}

/-- A client that logs the beginning of a scope logs everything. -/
theorem Client.minimum_of_begun (h : call.scope.begun ∈ (client.call call reply).log) :
    client.minimum = .trace := by
  rw [Client.log_call] at h
  have hadmits := (List.mem_filter.mp h).2
  have hrank : client.minimum.rank ≤ 0 := of_decide_eq_true hadmits
  cases hminimum : client.minimum with
  | trace => rfl
  | _ => simp [hminimum, Log.Severity.rank] at hrank

/-- The end of the scope of a call, which what comes of the request decides. -/
inductive Call.Ends (call : Call) (reply : Reply) (result : Except Error Outcome) :
    Log.Entry → Prop
  | given {outcome : Outcome} (h : result = .ok outcome) :
      Ends call reply result (call.scope.completed reply.elapsed [])
  | undecoded {e : Error} (h : result = .error e) (he : e.IsDecode) :
      Ends call reply result (call.scope.completed reply.elapsed [])
  | failed {e : Error} (h : result = .error e) (he : ¬ e.IsDecode) :
      Ends call reply result (call.scope.failed e.code)

theorem Client.exists_ends (reply : Reply) (hargs : call.check = .ok ())
    (hminimum : client.minimum = .trace) :
    ∃ ending, (client.call call reply).log.getLast? = some ending ∧
      call.Ends reply (client.call call reply).result ending := by
  cases call.fate client.query with
  | refused hcheck => cases hargs.symm.trans hcheck
  | @uncompiled e hcheck hrequest =>
    have hcompile : ¬ (Error.compile e).IsDecode := by
      rintro ⟨fault, hfault⟩
      cases hfault
    rw [Client.call_of_uncompiled hcheck hrequest, hminimum, Log.admitted_trace]
    exact ⟨_, rfl, .failed rfl hcompile⟩
  | @compiled request hcheck hrequest =>
    rw [Client.call_of_compiled hcheck hrequest, hminimum, Log.admitted_trace]
    refine ⟨_, List.getLast?_concat, ?_⟩
    cases hsettled : (Client.settleReply call request reply).1 with
    | error e => exact .failed rfl (Client.not_isDecode_of_settleReply hsettled)
    | ok outcome =>
      rcases call.deliver_cases request outcome with ⟨given, hgiven⟩ | ⟨⟨e, he, hdecode⟩, -⟩
      · exact .given hgiven
      · exact .undecoded he hdecode

theorem Call.Ends.eq_completed_iff {result : Except Error Outcome} {ending : Log.Entry}
    (h : call.Ends reply result ending) :
    ending = call.scope.completed reply.elapsed [] ↔
      (∃ outcome, result = .ok outcome) ∨ ∃ e, result = .error e ∧ e.IsDecode := by
  cases h with
  | given h => exact iff_of_true rfl (Or.inl ⟨_, h⟩)
  | undecoded h he => exact iff_of_true rfl (Or.inr ⟨_, h, he⟩)
  | @failed e h he =>
    refine iff_of_false Log.Scope.completed_ne_failed.symm ?_
    rintro (⟨outcome, houtcome⟩ | ⟨other, hother, hdecode⟩)
    · cases h.symm.trans houtcome
    · cases h.symm.trans hother
      exact he hdecode

theorem Call.Ends.eq_failed_iff {result : Except Error Outcome} {ending : Log.Entry}
    (h : call.Ends reply result ending) (reason : String) :
    ending = call.scope.failed reason ↔
      ∃ e, result = .error e ∧ ¬ e.IsDecode ∧ e.code = reason := by
  cases h with
  | given h =>
    refine iff_of_false Log.Scope.completed_ne_failed ?_
    rintro ⟨e, he, -⟩
    cases h.symm.trans he
  | undecoded h he =>
    refine iff_of_false Log.Scope.completed_ne_failed ?_
    rintro ⟨other, hother, hdecode, -⟩
    cases h.symm.trans hother
    exact hdecode he
  | @failed e h he =>
    rw [Log.Scope.failed_inj]
    refine ⟨fun hreason => ⟨e, h, he, hreason⟩, ?_⟩
    rintro ⟨other, hother, -, hreason⟩
    cases h.symm.trans hother
    exact hreason

/-- An error of decoding is met by the calls that decode, once there is an answer. -/
theorem Client.decodes_of_isDecode {e : Error}
    (h : (client.call call reply).result = .error e) (he : e.IsDecode) :
    call.Decodes ∧ ∃ answer, reply.answer = .ok answer := by
  cases call.fate client.query with
  | refused hcheck =>
    obtain ⟨fault, rfl⟩ := he
    rw [Client.call_of_bad_arguments hcheck] at h
    cases h
  | uncompiled hcheck hrequest =>
    obtain ⟨fault, rfl⟩ := he
    rw [Client.call_of_uncompiled hcheck hrequest] at h
    cases h
  | @compiled request hcheck hrequest =>
    rw [Client.call_of_compiled hcheck hrequest] at h
    dsimp only at h
    cases hsettled : (Client.settleReply call request reply).1 with
    | error other =>
      rw [hsettled] at h
      cases h
      exact absurd he (Client.not_isDecode_of_settleReply hsettled)
    | ok outcome =>
      rw [hsettled] at h
      rcases call.deliver_cases request outcome with ⟨given, hgiven⟩ | ⟨-, hdecodes⟩
      · cases h.symm.trans hgiven
      · refine ⟨hdecodes, ?_⟩
        cases hanswer : reply.answer with
        | ok answer => exact ⟨answer, rfl⟩
        | error failure =>
          unfold Client.settleReply at hsettled
          rw [hanswer] at hsettled
          cases hsettled

theorem Call.searchCompleted_mem_reports_iff :
    .searchCompleted ∈ call.reports ↔ call.IsRead := by
  rw [Call.isRead_iff]
  cases call <;> simp [Call.reports, Call.operation]

theorem Call.eq_searchCompleted_of_mem_reports {report : Log.Event} (h : report ∈ call.reports)
    (hread : call.IsRead) : report = .searchCompleted := by
  cases hread <;> simpa [Call.reports] using h

/-- The event of a completed search tells that there was an answer. -/
theorem Call.searchCompleted_mem_iff (hargs : call.check = .ok ()) (q : QueryState) :
    "SEARCH_COMPLETED" ∈ (call.entries q reply).map Log.Entry.event ↔
      call.IsRead ∧
        ∃ request answer, call.request q = .ok request ∧ reply.answer = .ok answer := by
  have hmark : ∀ ending ∈ scopeEndings, "SEARCH_COMPLETED" ≠ call.mark ending := by
    intro ending hending
    have hne : call.mark ending ≠ Log.Event.searchCompleted.name := Call.mark_ne_name hending
    exact hne.symm
  have hbegin := hmark "BEGIN" (by decide)
  have hfailed := hmark "FAILED" (by decide)
  have htrace := call.trace_entries q reply
  generalize (call.entries q reply).map Log.Entry.event = events at htrace ⊢
  cases htrace with
  | refused hbad => exact absurd hbad (Call.check_eq_ok_iff.mp hargs)
  | @rejected e _ hrequest =>
    refine iff_of_false ?_ ?_
    · simp [hbegin, hfailed]
    · rintro ⟨-, request, answer, hok, -⟩
      cases hrequest.symm.trans hok
  | @undelivered request e _ hrequest hanswer =>
    refine iff_of_false ?_ ?_
    · simp [hbegin, hfailed]
    · rintro ⟨-, -, answer, -, hok⟩
      cases hanswer.symm.trans hok
  | @answered request answer report _ hrequest hanswer hreport =>
    have hlast := hmark (if report = .unexpectedResult then "FAILED" else "COMPLETE")
      (by split <;> decide)
    have hname : "SEARCH_COMPLETED" = report.name ↔ report = .searchCompleted :=
      eq_comm.trans (Log.Event.name_injective.eq_iff (b := .searchCompleted))
    simp only [List.mem_cons, hbegin, hlast, hname, String.reduceEq, List.not_mem_nil, or_false,
      false_or]
    refine ⟨fun h => ⟨?_, request, answer, hrequest, hanswer⟩, fun ⟨hread, _⟩ => ?_⟩
    · exact Call.searchCompleted_mem_reports_iff.mp (h ▸ hreport)
    · exact Call.eq_searchCompleted_of_mem_reports hreport hread

end Ends

/-- **The end of a scope.** Let a call log the beginning of its scope. Its log ends with the
completion of the scope exactly if the caller gets an outcome or an error of decoding, and with the
failure of the scope for a reason exactly if the caller gets another error of that code. Errors of
decoding come from calls that decode, and only of an answer that is there. That a search is
completed is logged exactly if there is an answer to a search, whether it can be decoded or not. -/
theorem scope_end_iff (client : Client) (call : Call) (reply : Reply)
    (hbegun : call.scope.begun ∈ (client.call call reply).log) :
    let effect := client.call call reply
    (effect.log.getLast? = some (call.scope.completed reply.elapsed []) ↔
        (∃ outcome, effect.result = .ok outcome) ∨ ∃ e, effect.result = .error e ∧ e.IsDecode) ∧
      (∀ reason, effect.log.getLast? = some (call.scope.failed reason) ↔
        ∃ e, effect.result = .error e ∧ ¬ e.IsDecode ∧ e.code = reason) ∧
      (∀ e, effect.result = .error e → e.IsDecode →
        call.Decodes ∧ ∃ answer, reply.answer = .ok answer) ∧
      ("SEARCH_COMPLETED" ∈ effect.log.map Log.Entry.event ↔
        call.IsRead ∧ ∃ request answer,
          call.request client.query = .ok request ∧ reply.answer = .ok answer) := by
  intro effect
  have hminimum : client.minimum = .trace := Client.minimum_of_begun hbegun
  have hargs : call.check = .ok () := by
    cases hcheck : call.check with
    | ok _ => rfl
    | error e =>
      rw [Client.call_of_bad_arguments hcheck] at hbegun
      cases hbegun
  obtain ⟨ending, hending, hends⟩ := Client.exists_ends reply hargs hminimum
  have hlog : effect.log = call.entries client.query reply := by
    rw [Client.log_call, hminimum, Log.admitted_trace]
  refine ⟨?_, fun reason => ?_, fun e => Client.decodes_of_isDecode, ?_⟩
  · rw [hending, Option.some_inj]
    exact hends.eq_completed_iff
  · rw [hending, Option.some_inj]
    exact hends.eq_failed_iff reason
  · rw [hlog]
    exact Call.searchCompleted_mem_iff hargs client.query

/-- A list whose answer has no hits to decode: the scope is completed, and the caller gets an error
of decoding. -/
theorem scope_end_iff_undecodable :
    let client : Client := { query := .forIndex "users", minimum := .trace }
    let reply : Reply := ⟨.ok (.object []), 5⟩
    let effect := client.call .list reply
    Call.list.scope.begun ∈ effect.log ∧
      effect.result = .error (.decode (.malformed .missingHits)) ∧
      effect.log.getLast? = some (Call.list.scope.completed 5 []) ∧
      "SEARCH_COMPLETED" ∈ effect.log.map Log.Entry.event := by
  intro client reply effect
  have hbegun : Call.list.scope.begun ∈ effect.log := List.mem_cons_self
  have hresult : effect.result = .error (.decode (.malformed .missingHits)) := rfl
  obtain ⟨hcompleted, -, -, hsearch⟩ := scope_end_iff client .list reply hbegun
  refine ⟨hbegun, hresult, hcompleted.mpr (Or.inr ⟨_, hresult, _, rfl⟩), hsearch.mpr ⟨.list, ?_⟩⟩
  exact ⟨_, _, rfl, rfl⟩

/-- The end of a scope does not tell what the caller gets. -/
theorem not_scope_end_iff_result :
    ¬ ∀ (client : Client) (call : Call) (reply : Reply),
      call.scope.begun ∈ (client.call call reply).log →
        let effect := client.call call reply
        (effect.log.getLast? = some (call.scope.completed reply.elapsed []) ↔
            ∃ outcome, effect.result = .ok outcome) ∧
          ∀ reason, effect.log.getLast? = some (call.scope.failed reason) ↔
            ∃ e, effect.result = .error e ∧ e.code = reason := by
  intro h
  let client : Client := { query := .forIndex "users", minimum := .trace }
  obtain ⟨hcompleted, -⟩ := h client .list ⟨.ok (.object []), 5⟩ List.mem_cons_self
  obtain ⟨outcome, houtcome⟩ := hcompleted.mp rfl
  cases houtcome

end DocSearch
