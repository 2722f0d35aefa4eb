import DocSearch.CommandLine.Explain
import DocSearch.Proofs.Requests
import DocSearch.Proofs.Runs

/-!
# What the command shows is what a client sends

The request that a description compiles to is the one that a client of the same configuration
sends when the fields of the description are set on its query, one after the other, and the
search or the deletion is called. Where the description makes no request the client fails with
the error that the command reports, and sends nothing.

* `Client.setEach_eq`: setting the fields on a client is setting them on its query.
* `compileDescription_object`: the command compiles the query of a client with the fields set.
* `explained_request_is_sent`: the agreement.
-/

namespace DocSearch

/-- Sets the attributes that fields name on the query of a client, in the order of the fields; the
first that is rejected ends it. -/
def Client.setEach (client : Client) : Json.Fields → Except Error Client
  | [] => .ok client
  | (key, value) :: fields =>
    match Attribute.of key with
    | .error e => .error (.argument e)
    | .ok a =>
      match client.query.set a value with
      | ⟨_, some e⟩ => .error (.argument e)
      | ⟨q, none⟩ => { client with query := q }.setEach fields

namespace CommandLine

/-- The call that sends the request of a description. -/
def Purpose.call : Purpose → Call
  | .search => .rawSearch
  | .flush => .flush

/-- What a caller of the library gets who opens a client, sets the fields of a description on its
query and makes the call, and what was handed to the transport on the way. -/
def session (config : Config) (fields : Json.Fields) (purpose : Purpose) (reply : Reply) :
    Except Error Outcome × List (Operation × Request) :=
  match Client.ofConfig config with
  | .error e => (.error e, [])
  | .ok (opened, _) =>
    match opened.setEach fields with
    | .error e => (.error e, [])
    | .ok client =>
      ((client.call purpose.call reply).result,
        (client.call purpose.call reply).sent.toList)

end CommandLine

/-! ## Setting the fields -/

theorem Client.setEach_eq (client : Client) (fields : Json.Fields) :
    client.setEach fields =
      match client.query.setFields fields with
      | ⟨_, some e⟩ => .error (.argument e)
      | ⟨q, none⟩ => .ok { client with query := q } := by
  induction fields generalizing client with
  | nil => rfl
  | cons field fields ih =>
    obtain ⟨key, value⟩ := field
    rw [Client.setEach, QueryState.setFields, Applied.each, QueryState.setField]
    cases Attribute.of key with
    | error e => rfl
    | ok a =>
      simp only
      cases hset : client.query.set a value with
      | mk q fault =>
        cases fault with
        | some e => rfl
        | none => exact ih { client with query := q }

/-! ## Opening a client -/

theorem Config.validate_eq_ok_iff {config : Config} :
    config.validate = .ok () ↔
      config.hosts ≠ [] ∧ badHost? config.hosts = none ∧
        config.index.toList.all Text.isBlank = false ∧
        ∃ minimum, config.severity = .ok minimum := by
  simp only [validate, bind, Except.bind, throw, throwThe, MonadExceptOf.throw, pure, Except.pure]
  cases hhosts : config.hosts with
  | nil => simp
  | cons host hosts =>
    cases hbad : badHost? (host :: hosts) with
    | some bad => simp
    | none =>
      cases config.index.toList.all Text.isBlank with
      | true => simp
      | false => cases hseverity : config.severity <;> simp

theorem Client.ofConfig_of_validate {config : Config} (h : config.validate = .ok ()) :
    ∃ opened log, Client.ofConfig config = .ok (opened, log) ∧
      opened.query = .forIndex config.index := by
  obtain ⟨-, -, -, minimum, hminimum⟩ := Config.validate_eq_ok_iff.mp h
  simp only [Client.ofConfig, h, hminimum]
  exact ⟨_, _, rfl, rfl⟩

/-! ## The call -/

namespace CommandLine

variable {config : Config} {fields : Json.Fields} {purpose : Purpose} {reply : Reply}

theorem requestFor_eq (purpose : Purpose) (q : QueryState) :
    requestFor purpose q = purpose.call.request q := by
  cases purpose <;> rfl

theorem check_call (purpose : Purpose) : purpose.call.check = .ok () := by
  cases purpose <;> rfl

/-- The command compiles the query of a client of the configured index with the fields set. -/
theorem compileDescription_object {opened : Client}
    (hquery : opened.query = .forIndex config.index) :
    compileDescription config (.object fields) purpose =
      match opened.setEach fields with
      | .error e => .error (.ofError e)
      | .ok client => (purpose.call.request client.query).mapError (.rejected ∘ .compile) := by
  rw [compileDescription, ← hquery, Client.setEach_eq]
  cases opened.query.setFields fields with
  | mk q fault =>
    cases fault with
    | some e => rfl
    | none => simp only [requestFor_eq]

/-- **The command shows what is sent.** For a configuration that is accepted and any description,
whose fields stand in the order of their names, a client session with the same fields hands over
the request that the description makes, for the operation of its call, and that alone. When the
description makes none, the session fails with the error that the command reports and hands over
nothing. -/
theorem explained_request_is_sent (hconfig : config.validate = .ok ()) (fields : Json.Fields)
    (purpose : Purpose) (reply : Reply) :
    match compileDescription config (.object fields) purpose with
    | .ok request =>
      (∃ opened log client, Client.ofConfig config = .ok (opened, log) ∧
        opened.setEach fields = .ok client) ∧
      ∃ operation, purpose.call.Routes operation ∧
        (session config fields purpose reply).2 = [(operation, request)]
    | .error e =>
      ∃ cause, (session config fields purpose reply).1 = .error cause ∧
        CommandError.ofError cause = e ∧ (session config fields purpose reply).2 = [] := by
  obtain ⟨opened, log, hopened, hquery⟩ := Client.ofConfig_of_validate hconfig
  rw [compileDescription_object hquery, session]
  simp only [hopened]
  -- Both sides go on from here alike, so that the same check fails first on both.
  cases hset : opened.setEach fields with
  | error e => exact ⟨e, rfl, rfl, rfl⟩
  | ok client =>
    simp only
    cases hrequest : purpose.call.request client.query with
    | error e =>
      rw [Client.call_of_uncompiled (check_call purpose) hrequest]
      exact ⟨_, rfl, rfl, rfl⟩
    | ok request =>
      rw [Client.call_of_compiled (check_call purpose) hrequest]
      exact ⟨⟨opened, log, client, rfl, hset⟩, _, Call.routes_iff.mpr rfl, rfl⟩

/-- A description with a limit for the deletion, and one with an unknown field. -/
theorem explained_request_is_sent_flush :
    let config : Config := {}
    let answered : Reply := ⟨.ok (.object []), 0⟩
    let request : Request := .assembled
      (some (.object [("query", .object [("match_all", .object [])])])) none "logs" none
    let known : Json.Fields := [("index", .text "logs"), ("limit", .count 5)]
    let unknown : Json.Fields := [("index", .text "logs"), ("limits", .count 5)]
    config.validate = .ok () ∧
      compileDescription config (.object known) .flush = .ok request ∧
      (session config known .flush answered).2 = [(.deleteByQuery, request)] ∧
      compileDescription config (.object unknown) .flush =
        .error (.rejected (.argument (.unknown "limits"))) ∧
      (session config unknown .flush answered).2 = [] := by
  intro config answered request known unknown
  -- The name is put in capitals by a well-founded recursion, which only the kernel unfolds.
  have hinfo : Log.Severity.ofName? config.logLevel = some .info := by decide +kernel
  have hseverity : config.severity = .ok .info := by
    rw [Config.severity, hinfo]
    rfl
  have hvalid : config.validate = .ok () :=
    Config.validate_eq_ok_iff.mpr ⟨by decide, by decide, by decide, .info, hseverity⟩
  obtain ⟨-, operation, hroutes, hsent⟩ := explained_request_is_sent hvalid known .flush answered
  obtain rfl := Call.routes_iff.mp hroutes
  obtain ⟨cause, -, -, hunsent⟩ := explained_request_is_sent hvalid unknown .flush answered
  exact ⟨hvalid, rfl, hsent, rfl, hunsent⟩

end CommandLine

end DocSearch
