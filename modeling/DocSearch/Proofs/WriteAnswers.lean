import DocSearch.Proofs.Targets

/-!
# Answers to writes

What a caller gets of a write that was sent. A creation, an update and a deletion succeed if the
engine confirms them, each with texts of its own; any other answer is unexpected. Some failures of
the transport are told in the terms of the write, and all others come back as they are. The deletion
of all documents takes any answer.

* `Call.Confirms`, `Call.Renames`: the texts and the failures that a write knows.
* `Client.result_of_answer`, `Client.result_of_failure`: what comes of a reply.
* `Client.confirmed_of_ok`: what a write gives that succeeds.
* `Call.recoverable_translate_iff`: the failures after which a caller may try again.
* `write_answers_translated`: all of it, for any write that was sent.
-/

namespace DocSearch

namespace Call

/-- The texts with which the engine confirms a write. -/
inductive Confirms : Call → String → Prop
  | created {document : Json} {idField : String} : Confirms (.create document idField) "created"
  | updated {id : String} {changes : Json} : Confirms (.update id changes) "updated"
  /-- The document was already as it should be. -/
  | unchanged {id : String} {changes : Json} : Confirms (.update id changes) "noop"
  | deleted {id : String} : Confirms (.delete id) "deleted"

/-- The failures of the transport that a write tells in terms of its own. -/
inductive Renames : Call → TransportError → Error → Prop
  | created {document : Json} {idField : String} (reason : String) :
      Renames (.create document idField) (.conflict reason) (.documentExists reason)
  | updated {changes : Json} (id reason : String) :
      Renames (.update id changes) (.notFound reason) (.documentNotFound id)
  | deleted (id reason : String) : Renames (.delete id) (.notFound reason) (.documentNotFound id)

variable {call : Call} {answer : Json} {status : String} {failure : TransportError} {e : Error}
  {request : Request}

/-! ## Answers -/

theorem statusOf_eq_some_iff :
    statusOf answer = some status ↔ answer.get? "result" = some (.text status) := by
  have htext : ∀ held : Json, held.asText? = some status ↔ held = .text status := by
    intro held
    cases held <;> simp [Json.asText?]
  simp [statusOf, Option.bind_eq_some_iff, htext]

theorem mem_successes_iff : status ∈ call.successes ↔ call.Confirms status := by
  constructor
  · intro h
    cases call with
    | create document idField =>
      obtain rfl := List.mem_singleton.mp h
      exact .created
    | update id changes =>
      rcases List.mem_pair.mp h with rfl | rfl
      · exact .updated
      · exact .unchanged
    | delete id =>
      obtain rfl := List.mem_singleton.mp h
      exact .deleted
    | _ => cases h
  · rintro ⟨⟩ <;> simp [successes]

theorem settleWrite_of_confirms (h : statusOf answer = some status)
    (hconfirms : call.Confirms status) :
    (call.settleWrite answer).1 = .ok (call.written answer status).1 := by
  have hmem : call.successes.contains status = true :=
    List.contains_iff_mem.mpr (mem_successes_iff.mpr hconfirms)
  rw [settleWrite, h, Option.filter_some_pos hmem]

theorem settleWrite_of_not_confirms
    (h : ∀ status, statusOf answer = some status → ¬ call.Confirms status) :
    (call.settleWrite answer).1 = .error (.unexpectedResult ((statusOf answer).getD "null")) := by
  have hnone : (statusOf answer).filter (call.successes.contains ·) = none := by
    refine Option.filter_eq_none_iff.mpr fun status hstatus hmem => h status hstatus ?_
    exact mem_successes_iff.mp (List.contains_iff_mem.mp hmem)
  rw [settleWrite, hnone]

/-- An answer confirms a write or is unexpected. -/
theorem settleWrite_cases (call : Call) (answer : Json) :
    (∃ status, statusOf answer = some status ∧ call.Confirms status ∧
        (call.settleWrite answer).1 = .ok (call.written answer status).1) ∨
      ∃ shown, (call.settleWrite answer).1 = .error (.unexpectedResult shown) := by
  by_cases h : ∃ status, statusOf answer = some status ∧ call.Confirms status
  · obtain ⟨status, hstatus, hconfirms⟩ := h
    exact Or.inl ⟨status, hstatus, hconfirms, settleWrite_of_confirms hstatus hconfirms⟩
  · refine Or.inr ⟨_, settleWrite_of_not_confirms fun status hstatus hconfirms => ?_⟩
    exact h ⟨status, hstatus, hconfirms⟩

/-! ## Failures -/

theorem translate_of_renames (h : call.Renames failure e) : call.translate failure = e := by
  cases h <;> rfl

theorem translate_of_not_renames (h : ∀ e, ¬ call.Renames failure e) :
    call.translate failure = .transport failure := by
  unfold translate
  split
  · exact absurd (.created _) (h _)
  · exact absurd (.updated _ _) (h _)
  · exact absurd (.deleted _ _) (h _)
  · rfl

theorem recoverable_translate_iff :
    (call.translate failure).recoverable = true ↔
      (∃ reason, failure = .failed reason) ∨ ∃ e, call.Renames failure e := by
  by_cases h : ∃ e, call.Renames failure e
  · obtain ⟨e, he⟩ := h
    rw [translate_of_renames he]
    refine iff_of_true ?_ (Or.inr ⟨e, he⟩)
    cases he <;> rfl
  · rw [translate_of_not_renames (not_exists.mp h), or_iff_left h]
    cases failure <;> simp [Error.recoverable]

end Call

/-! ## What comes of a reply -/

namespace Client

variable {client : Client} {call : Call} {reply : Reply} {answer : Json}
  {failure : TransportError}

/-- What is settled of the reply to a write is delivered as it is. -/
theorem exists_settled_of_sent (hwrite : call.IsWrite)
    (hsent : (client.call call reply).sent.isSome) :
    ∃ request, (client.call call reply).result = (settleReply call request reply).1 := by
  cases call.fate client.query with
  | refused hcheck =>
    rw [call_of_bad_arguments hcheck] at hsent
    cases hsent
  | uncompiled hcheck hrequest =>
    rw [call_of_uncompiled hcheck hrequest] at hsent
    cases hsent
  | @compiled request hcheck hrequest =>
    refine ⟨request, ?_⟩
    rw [call_of_compiled hcheck hrequest]
    dsimp only
    -- only what is settled of a search is decoded before it is delivered
    cases (settleReply call request reply).1 with
    | error e => rfl
    | ok outcome =>
      cases hwrite <;> rfl

theorem result_of_answer (hwrite : call.IsWrite) (hflush : call ≠ .flush)
    (hsent : (client.call call reply).sent.isSome) (hanswer : reply.answer = .ok answer) :
    (client.call call reply).result = (call.settleWrite answer).1 := by
  obtain ⟨request, hresult⟩ := exists_settled_of_sent hwrite hsent
  rw [hresult, settleReply, hanswer]
  cases hwrite with
  | create document idField => rfl
  | update id changes => rfl
  | delete id => rfl
  | flush => exact absurd rfl hflush

theorem result_of_flush (hsent : (client.call .flush reply).sent.isSome)
    (hanswer : reply.answer = .ok answer) :
    (client.call .flush reply).result = .ok (.value answer) := by
  obtain ⟨request, hresult⟩ := exists_settled_of_sent .flush hsent
  rw [hresult, settleReply, hanswer]
  rfl

theorem result_of_failure (hwrite : call.IsWrite)
    (hsent : (client.call call reply).sent.isSome) (hfailure : reply.answer = .error failure) :
    (client.call call reply).result = .error (call.translate failure) := by
  obtain ⟨request, hresult⟩ := exists_settled_of_sent hwrite hsent
  rw [hresult, settleReply, hfailure]

/-- A caller that got an answer to a write need not try again. -/
theorem not_recoverable_of_answer {e : Error} (hwrite : call.IsWrite)
    (hsent : (client.call call reply).sent.isSome) (hanswer : reply.answer = .ok answer)
    (h : (client.call call reply).result = .error e) : e.recoverable = false := by
  by_cases hflush : call = .flush
  · subst hflush
    rw [result_of_flush hsent hanswer] at h
    cases h
  · rw [result_of_answer hwrite hflush hsent hanswer] at h
    rcases call.settleWrite_cases answer with ⟨status, -, -, hok⟩ | ⟨shown, herror⟩
    · cases hok.symm.trans h
    · cases herror.symm.trans h
      rfl

/-- What a write gives that succeeds is made of the answer that confirms it. -/
theorem confirmed_of_ok {outcome : Outcome} (hwrite : call.IsWrite)
    (hflush : call ≠ .flush) (hsent : (client.call call reply).sent.isSome)
    (h : (client.call call reply).result = .ok outcome) :
    ∃ answer status, reply.answer = .ok answer ∧ Call.statusOf answer = some status ∧
      call.Confirms status ∧ outcome = (call.written answer status).1 := by
  cases hanswer : reply.answer with
  | error failure =>
    rw [result_of_failure hwrite hsent hanswer] at h
    cases h
  | ok answer =>
    rw [result_of_answer hwrite hflush hsent hanswer] at h
    rcases call.settleWrite_cases answer with ⟨status, hstatus, hconfirms, hok⟩ | ⟨shown, herror⟩
    · cases hok.symm.trans h
      exact ⟨answer, status, rfl, hstatus, hconfirms, rfl⟩
    · cases herror.symm.trans h

/-- A write other than the deletion of all documents succeeds if it is confirmed. -/
theorem exists_ok_iff (hwrite : call.IsWrite) (hflush : call ≠ .flush)
    (hsent : (client.call call reply).sent.isSome) :
    (∃ outcome, (client.call call reply).result = .ok outcome) ↔
      ∃ (fields : Json.Fields) (status : String), reply.answer = .ok (.object fields) ∧
        fields.get? "result" = some (.text status) ∧ call.Confirms status := by
  constructor
  · rintro ⟨outcome, h⟩
    obtain ⟨answer, status, hanswer, hstatus, hconfirms, -⟩ :=
      confirmed_of_ok hwrite hflush hsent h
    obtain ⟨fields, rfl, hfields⟩ :=
      Json.get?_eq_some_iff.mp (Call.statusOf_eq_some_iff.mp hstatus)
    exact ⟨fields, status, hanswer, hfields, hconfirms⟩
  · rintro ⟨fields, status, hanswer, hfields, hconfirms⟩
    have hstatus : Call.statusOf (.object fields) = some status :=
      Call.statusOf_eq_some_iff.mpr hfields
    rw [result_of_answer hwrite hflush hsent hanswer,
      Call.settleWrite_of_confirms hstatus hconfirms]
    exact ⟨_, rfl⟩

theorem exists_recoverable_iff (hwrite : call.IsWrite)
    (hsent : (client.call call reply).sent.isSome) :
    (∃ e, (client.call call reply).result = .error e ∧ e.recoverable = true) ↔
      ∃ failure, reply.answer = .error failure ∧
        ((∃ reason, failure = .failed reason) ∨ ∃ e, call.Renames failure e) := by
  cases hanswer : reply.answer with
  | error failure =>
    simp [result_of_failure hwrite hsent hanswer, ← Call.recoverable_translate_iff]
  | ok answer =>
    refine iff_of_false ?_ (by simp)
    rintro ⟨e, he, hrecoverable⟩
    rw [not_recoverable_of_answer hwrite hsent hanswer he] at hrecoverable
    cases hrecoverable

end Client

/-- **Answers to writes are translated.** A creation, an update or a deletion that was sent succeeds
exactly if the answer is an object with a text as its result that confirms the write; any other
answer is unexpected, and the error shows the text, or null without one. A deletion of all documents
gives whatever the answer is. A conflict of a creation and a missing document of an update or a
deletion are told in their own terms, and every other failure as it is. So the caller may try again
exactly after a failure that is told in its own terms, or is of no special kind. -/
theorem write_answers_translated (client : Client) (call : Call) (reply : Reply)
    (hwrite : call.IsWrite) (hsent : (client.call call reply).sent.isSome) :
    let result := (client.call call reply).result
    (call ≠ .flush →
        ((∃ outcome, result = .ok outcome) ↔
          ∃ (fields : Json.Fields) (status : String), reply.answer = .ok (.object fields) ∧
            fields.get? "result" = some (.text status) ∧ call.Confirms status) ∧
        ∀ answer, reply.answer = .ok answer →
          (∀ status, answer.get? "result" = some (.text status) → ¬ call.Confirms status →
            result = .error (.unexpectedResult status)) ∧
          ((∀ status, answer.get? "result" ≠ some (.text status)) →
            result = .error (.unexpectedResult "null"))) ∧
      (call = .flush → ∀ answer, reply.answer = .ok answer → result = .ok (.value answer)) ∧
      (∀ failure, reply.answer = .error failure →
        (∀ e, call.Renames failure e → result = .error e) ∧
        ((∀ e, ¬ call.Renames failure e) → result = .error (.transport failure))) ∧
      ((∃ e, result = .error e ∧ e.recoverable = true) ↔
        ∃ failure, reply.answer = .error failure ∧
          ((∃ reason, failure = .failed reason) ∨ ∃ e, call.Renames failure e)) := by
  intro result
  refine ⟨fun hflush => ⟨Client.exists_ok_iff hwrite hflush hsent, fun answer hanswer => ⟨?_, ?_⟩⟩,
    ?_, fun failure hfailure => ?_, Client.exists_recoverable_iff hwrite hsent⟩
  · intro status htext hother
    have hstatus : Call.statusOf answer = some status := Call.statusOf_eq_some_iff.mpr htext
    refine (Client.result_of_answer hwrite hflush hsent hanswer).trans ?_
    rw [Call.settleWrite_of_not_confirms, hstatus, Option.getD_some]
    intro found hfound
    cases hstatus.symm.trans hfound
    exact hother
  · intro hnone
    have hstatus : Call.statusOf answer = none :=
      Option.eq_none_iff_forall_ne_some.mpr fun status hstatus =>
        hnone status (Call.statusOf_eq_some_iff.mp hstatus)
    refine (Client.result_of_answer hwrite hflush hsent hanswer).trans ?_
    rw [Call.settleWrite_of_not_confirms, hstatus, Option.getD_none]
    intro found hfound
    cases hstatus.symm.trans hfound
  · rintro rfl answer hanswer
    exact Client.result_of_flush hsent hanswer
  · have hresult := Client.result_of_failure hwrite hsent hfailure
    refine ⟨fun e he => hresult.trans ?_, fun hnone => hresult.trans ?_⟩
    · rw [Call.translate_of_renames he]
    · rw [Call.translate_of_not_renames hnone]

/-- The text that confirms an update where nothing changed does not confirm a deletion; of a
document that is missing, the update tells the id. -/
theorem write_answers_translated_noop :
    let client : Client := { query := .forIndex "users" }
    let deletion : Call := .delete "7"
    let update : Call := .update "7" (.object [])
    let unchanged : Reply := ⟨.ok (.object [("result", .text "noop")]), 0⟩
    let missing : Reply := ⟨.error (.notFound "no such document"), 0⟩
    deletion.IsWrite ∧ (client.call deletion unchanged).sent.isSome ∧
      (client.call deletion unchanged).result = .error (.unexpectedResult "noop") ∧
      update.IsWrite ∧ (client.call update missing).sent.isSome ∧
      (client.call update missing).result = .error (.documentNotFound "7") ∧
      ∃ e, (client.call update missing).result = .error e ∧ e.recoverable = true := by
  intro client deletion update unchanged missing
  have hdeletion : deletion.IsWrite := .delete "7"
  have hupdate : update.IsWrite := .update "7" (.object [])
  obtain ⟨hdeleted, -⟩ := write_answers_translated client deletion unchanged hdeletion rfl
  obtain ⟨-, -, hfailures, hretry⟩ := write_answers_translated client update missing hupdate rfl
  obtain ⟨-, hanswers⟩ := hdeleted nofun
  obtain ⟨hunexpected, -⟩ := hanswers _ rfl
  obtain ⟨hrenamed, -⟩ := hfailures _ rfl
  have hrenames : update.Renames (.notFound "no such document") (.documentNotFound "7") :=
    .updated "7" "no such document"
  have hunconfirmed : ¬ deletion.Confirms "noop" := Call.mem_successes_iff.not.mp (by decide)
  exact ⟨hdeletion, rfl, hunexpected "noop" rfl hunconfirmed, hupdate, rfl, hrenamed _ hrenames,
    hretry.mpr ⟨_, rfl, Or.inr ⟨_, hrenames⟩⟩⟩

end DocSearch
