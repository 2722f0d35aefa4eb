import DocSearch.Proofs.Assembly
import DocSearch.Proofs.Changes
import DocSearch.Proofs.Explained
import DocSearch.Proofs.FilterCalls
import DocSearch.Proofs.OrderedRequests
import DocSearch.Proofs.ScopeEnds

/-!
# Targets of configured clients

A client that is opened with an accepted configuration has an index, and keeps one until an empty
one is set. So none of its calls fails for want of an index, and each request names the index that
was set last.

* `Config.validate_of_load`, `Config.validate_of_ofLookup`: what is loaded is accepted.
* `QueryState.index_set`, `Declaration.index_apply`: what a declaration does to the index.
* `Client.index_step`, `Client.index_after`: the index after one step, and after a run.
* `Call.errorOf?_request`: a call fails to compile as its query does.
* `configured_client_has_target`: all of it, for any run of a configured client.
-/

namespace DocSearch

/-! ## Runs by declarations -/

/-- What callers declare on a query. A declaration whose arguments are rejected leaves the query as
it was, except that of a list of values those before the first that is rejected are kept. -/
inductive Declaration where
  | index (name : String)
  | documentType (name : String)
  | limit (n : UInt64)
  | offset (n : UInt64)
  | columns (names : List String)
  | scroll (token : String)
  | sort (field : String) (spec : Json)
  | aggregation (name : String) (spec : Json)
  /-- Any predicate, nested queries with settings of their own among them. -/
  | filter (p : Predicate)
  | filterBy (call : FilterCall)
  | set (a : Attribute) (value : Json)

def Declaration.apply (d : Declaration) (q : QueryState) : QueryState :=
  match d with
  | .index name => q.setIndex name
  | .documentType name => q.setDocumentType name
  | .limit n => q.setLimit n
  | .offset n => q.setOffset n
  | .columns names => q.addColumns names
  | .scroll token => q.setScroll token
  | .sort field spec => q.addSort field spec
  | .aggregation name spec => q.addAggregation name spec
  | .filter p => q.filter p
  | .filterBy call => q.filterEach [call]
  | .set a value => (q.set a value).state

/-- The index that a declaration sets. -/
def Declaration.index? : Declaration → Option String
  | .index name => some name
  | .set .index (.text name) => some name
  | _ => none

/-- What a caller does with a client. -/
inductive Act where
  | declare (d : Declaration)
  | call (call : Call) (reply : Reply)

def Act.step : Act → Step
  | .declare d => .declare d.apply
  | .call made reply => .call made reply

def Act.index? : Act → Option String
  | .declare d => d.index?
  | .call .. => none

/-- The index that was set last, or the configured one. -/
def lastIndex (configured : String) (acts : List Act) : String :=
  (acts.filterMap Act.index?).getLast?.getD configured

/-! ## The configuration -/

namespace Config

variable {config : Config}

theorem accepted_eq_ok_iff {found : Config} :
    accepted found = .ok config ↔ found.validate = .ok () ∧ found = config := by
  constructor
  · intro h
    obtain ⟨_, hvalidate, hfound⟩ := bind_eq_ok_iff.mp h
    cases hfound
    exact ⟨hvalidate, rfl⟩
  · rintro ⟨hvalidate, rfl⟩
    exact bind_eq_ok_iff.mpr ⟨(), hvalidate, rfl⟩

theorem validate_of_accepted {found : Config} (h : accepted found = .ok config) :
    config.validate = .ok () := by
  obtain ⟨hvalidate, rfl⟩ := accepted_eq_ok_iff.mp h
  exact hvalidate

theorem validate_of_load {file : Except String String} (h : load file = .ok config) :
    config.validate = .ok () := by
  obtain ⟨text, -, h⟩ := bind_eq_ok_iff.mp h
  obtain ⟨found, -, h⟩ := bind_eq_ok_iff.mp h
  exact validate_of_accepted h

theorem validate_of_ofLookup {lookup : String → Option String} (h : ofLookup lookup = .ok config) :
    config.validate = .ok () := by
  unfold ofLookup at h
  dsimp only at h
  split at h
  all_goals
    obtain ⟨retries, -, h⟩ := bind_eq_ok_iff.mp h
    exact validate_of_accepted h

theorem index_ne_of_validate (h : config.validate = .ok ()) : config.index ≠ "" := by
  obtain ⟨-, -, hblank, -⟩ := validate_eq_ok_iff.mp h
  intro hindex
  rw [hindex] at hblank
  cases hblank

theorem validate_default : ({} : Config).validate = .ok () := by
  -- The name is put in capitals by a well-founded recursion, which only the kernel unfolds.
  have hinfo : Log.Severity.ofName? "info" = some .info := by decide +kernel
  have hseverity : ({} : Config).severity = .ok .info := by
    rw [Config.severity, hinfo]
    rfl
  exact validate_eq_ok_iff.mpr ⟨by decide, by decide, by decide, .info, hseverity⟩

/-- Without settings the defaults are taken. -/
theorem ofLookup_none : ofLookup (fun _ => none) = .ok {} := by
  change accepted {} = .ok {}
  rw [accepted, validate_default]
  rfl

end Config

/-! ## The index of a query -/

namespace QueryState

variable {a : Attribute}

theorem index_addColumn (q : QueryState) (column : String) :
    (q.addColumn column).index = q.index := by
  unfold addColumn
  split <;> rfl

theorem index_addColumns (q : QueryState) (columns : List String) :
    (q.addColumns columns).index = q.index :=
  List.foldlRecOn columns addColumn (motive := fun r => r.index = q.index) rfl
    fun r hr column _ => (index_addColumn r column).trans hr

theorem index_filterEach (q : QueryState) (calls : List FilterCall) :
    (q.filterEach calls).index = q.index := by
  induction calls generalizing q with
  | nil => rfl
  | cons call calls ih =>
    rw [filterEach]
    split
    · exact ih _
    · exact ih _

/-- An attribute other than the index leaves the index as it was, whether all of its value is
accepted or not. -/
theorem index_set (q : QueryState) (value : Json) (ha : a ≠ .index) :
    (q.set a value).state.index = q.index :=
  sameAt_set ha.symm q value

end QueryState

theorem Declaration.index_apply (d : Declaration) (q : QueryState) :
    (d.apply q).index = d.index?.or q.index := by
  cases d with
  | columns names => exact q.index_addColumns names
  | filterBy call => exact q.index_filterEach [call]
  | set a value =>
    cases a with
    | index => cases value <;> rfl
    | _ => exact q.index_set value nofun
  | _ => rfl

/-! ## The index of a client -/

namespace Client

variable {client : Client}

theorem index_step (client : Client) (act : Act) :
    (client.step act.step).query.index = act.index?.or client.query.index := by
  cases act with
  | declare d => exact d.index_apply client.query
  | call made reply =>
    rw [Act.step, step]
    rcases client.call_effect made reply with ⟨-, hkept⟩ | ⟨request, -, -, hreset⟩
    · rw [hkept]
      rfl
    · rw [hreset]
      rfl

theorem index_after {configured : String} (h : client.query.index = some configured)
    (acts : List Act) :
    (client.after (acts.map Act.step)).query.index = some (lastIndex configured acts) := by
  induction acts using List.reverseRecOn with
  | nil => exact h
  | append_singleton acts act ih =>
    have hlast : lastIndex configured (acts ++ [act]) =
        act.index?.getD (lastIndex configured acts) := by
      unfold lastIndex
      rw [List.filterMap_append, List.getLast?_append]
      cases hact : act.index? <;> simp [hact]
    rw [List.map_append, List.map_singleton, after, List.foldl_append]
    refine (index_step _ act).trans ?_
    rw [hlast]
    cases act.index? with
    | none => exact ih
    | some name => rfl

end Client

theorem lastIndex_ne {configured : String} {acts : List Act} (hconfigured : configured ≠ "")
    (hacts : ∀ act ∈ acts, act.index? ≠ some "") : lastIndex configured acts ≠ "" := by
  unfold lastIndex
  cases hlast : (acts.filterMap Act.index?).getLast? with
  | none => exact hconfigured
  | some name =>
    obtain ⟨act, hmem, hact⟩ := List.mem_filterMap.mp (List.mem_of_getLast? hlast)
    intro hname
    exact hacts act hmem (hname ▸ hact)

/-! ## The request of a call -/

section Calls

open Compile

variable {q : QueryState} {made : Call} {request : Request} {body : Option Json}
  {id documentType : Option String} {index : String}

theorem Request.index?_assembled :
    (Request.assembled body id index documentType).index? = some index := by
  cases body <;> cases id <;> rfl

theorem QueryState.Names.index?_assembled (h : q.Names index documentType) :
    (Request.assembled body id index documentType).index? = q.index :=
  Request.index?_assembled.trans h.index_eq.symm

theorem Compile.index?_search (h : search q = .ok request) : request.index? = q.index := by
  obtain ⟨resolved, index, documentType, -, hnames, rfl⟩ := search_eq_ok_iff.mp h
  exact hnames.index?_assembled

theorem Call.index?_request (h : made.request q = .ok request) : request.index? = q.index := by
  cases made with
  | create document idField =>
    obtain ⟨-, index, documentType, hnames, rfl⟩ := create_eq_ok_iff.mp h
    exact hnames.index?_assembled
  | update id changes =>
    obtain ⟨-, index, documentType, hnames, rfl⟩ := update_eq_ok_iff.mp h
    exact hnames.index?_assembled
  | delete id =>
    obtain ⟨-, index, documentType, hnames, rfl⟩ := delete_eq_ok_iff.mp h
    exact hnames.index?_assembled
  | flush =>
    obtain ⟨-, index, documentType, hnames, rfl⟩ := flush_eq_ok_iff.mp h
    exact hnames.index?_assembled
  | rawSearch => exact index?_search h
  | list => exact index?_search h
  | first => exact index?_search (q := q.setLimit 1) h
  | paginate page perPage => exact (index?_search h).trans rfl

theorem Compile.errorOf?_search (q : QueryState) :
    errorOf? (search q) = errorOf? (indexedQuery q) := by
  rw [search_eq, errorOf?_map]

theorem Compile.errorOf?_target (q : QueryState) :
    errorOf? (target q) = errorOf? (indexedQuery q) := by
  rw [target, resolve_eq, errorOf?_map, errorOf?_map]

/-- Whatever a call asks for, it fails to compile as the query does. -/
theorem Call.errorOf?_request (made : Call) (q : QueryState) :
    errorOf? (made.request q) = errorOf? (indexedQuery q) := by
  cases made with
  | rawSearch => exact errorOf?_search q
  | list => exact errorOf?_search q
  | first => exact errorOf?_search (q.setLimit 1)
  | paginate page perPage => exact errorOf?_search _
  | _ => exact (errorOf?_bind_pure _).trans (errorOf?_target q)

theorem Compile.index_of_missingIndex (h : indexedQuery q = .error .missingIndex) :
    q.index.getD "" = "" := by
  by_contra hindex
  cases hquery : query q with
  | error e =>
    -- the errors of predicates are of another kind
    obtain ⟨_, _, _, fault, _, _, _, rfl⟩ := query_eq_error_iff.mp hquery
    rw [indexedQuery_of_error hquery] at h
    cases h
  | ok tree =>
    rw [indexedQuery_of_ok hquery, if_neg hindex] at h
    cases h

/-- A call that fails with an error of compiling has not compiled. -/
theorem Client.request_of_compile_error {client : Client} {reply : Reply} {e : CompileError}
    (h : (client.call made reply).result = .error (.compile e)) :
    made.request client.query = .error e := by
  cases made.fate client.query with
  | refused hcheck =>
    rw [call_of_bad_arguments hcheck] at h
    cases h
  | uncompiled hcheck hrequest =>
    rw [call_of_uncompiled hcheck hrequest] at h
    cases h
    exact hrequest
  | @compiled request hcheck hrequest =>
    rw [call_of_compiled hcheck hrequest] at h
    cases hsettled : (settleReply made request reply).1 with
    | error found =>
      rw [hsettled] at h
      cases h
      exact absurd rfl ((replyError_of_settleReply hsettled).ne.1 e)
    | ok outcome =>
      rw [hsettled] at h
      rcases made.deliver_cases request outcome with
        ⟨given, hgiven⟩ | ⟨⟨found, hfound, fault, rfl⟩, -⟩
      · cases h.symm.trans hgiven
      · cases h.symm.trans hfound

theorem Client.request_of_sent {client : Client} {reply : Reply} {operation : Operation}
    (h : (client.call made reply).sent = some (operation, request)) :
    made.request client.query = .ok request := by
  rcases client.call_effect made reply with ⟨hsent, -⟩ | ⟨found, hfound, hsent, -⟩
  · cases h.symm.trans hsent
  · cases h.symm.trans hsent
    exact hfound

end Calls

/-- **A configured client has a target.** A configuration that is loaded is accepted, and so has a
severity. A client of an accepted configuration, after whatever is declared and called on it, as
long as no empty index is set: its next call does not fail for want of an index, and what it sends
names the index that was set last, or the configured one. -/
theorem configured_client_has_target :
    (∀ config, (∃ file, Config.load file = .ok config) ∨
        (∃ lookup, Config.ofLookup lookup = .ok config) → config.validate = .ok ()) ∧
      ∀ config : Config, config.validate = .ok () →
        (∃ severity, config.severity = .ok severity) ∧
        ∃ opened log, Client.ofConfig config = .ok (opened, log) ∧
          ∀ acts : List Act, (∀ act ∈ acts, act.index? ≠ some "") →
            ∀ (made : Call) (reply : Reply),
              let effect := (opened.after (acts.map Act.step)).call made reply
              effect.result ≠ .error (.compile .missingIndex) ∧
                ∀ operation request, effect.sent = some (operation, request) →
                  request.index? = some (lastIndex config.index acts) := by
  refine ⟨?_, fun config hvalid => ⟨(Config.validate_eq_ok_iff.mp hvalid).2.2.2, ?_⟩⟩
  · rintro config (⟨file, hfile⟩ | ⟨lookup, hlookup⟩)
    · exact Config.validate_of_load hfile
    · exact Config.validate_of_ofLookup hlookup
  · obtain ⟨opened, log, hopened, hquery⟩ := Client.ofConfig_of_validate hvalid
    refine ⟨opened, log, hopened, fun acts hacts made reply => ?_⟩
    have hindex := Client.index_after (congrArg (fun q : QueryState => q.index) hquery) acts
    have hne := lastIndex_ne (Config.index_ne_of_validate hvalid) hacts
    constructor
    · intro hresult
      have herror := errorOf?_eq_some_iff.mpr (Client.request_of_compile_error hresult)
      rw [Call.errorOf?_request, errorOf?_eq_some_iff] at herror
      have hempty := Compile.index_of_missingIndex herror
      rw [hindex] at hempty
      exact hne hempty
    · intro operation request hsent
      rw [Call.index?_request (Client.request_of_sent hsent), hindex]

/-- A client of the defaults, which is called, is told another index, and is called again. -/
theorem configured_client_has_target_flush :
    let config : Config := {}
    let answered : Reply := ⟨.ok (.object []), 0⟩
    let acts : List Act :=
      [.declare (.limit 5), .call .rawSearch answered, .declare (.set .index (.text "logs"))]
    config.validate = .ok () ∧ (∀ act ∈ acts, act.index? ≠ some "") ∧
      ∃ opened log, Client.ofConfig config = .ok (opened, log) ∧
        let effect := (opened.after (acts.map Act.step)).call .flush answered
        effect.result ≠ .error (.compile .missingIndex) ∧
          ∃ request, effect.sent = some (.deleteByQuery, request) ∧
            request.index? = some "logs" := by
  intro config answered acts
  obtain ⟨hload, hruns⟩ := configured_client_has_target
  have hvalid := hload config (Or.inr ⟨_, Config.ofLookup_none⟩)
  obtain ⟨-, opened, log, hopened, hrun⟩ := hruns config hvalid
  have hacts : ∀ act ∈ acts, act.index? ≠ some "" := by
    simp [acts, Act.index?, Declaration.index?]
  obtain ⟨hresult, hsent⟩ := hrun acts hacts .flush answered
  refine ⟨hvalid, hacts, opened, log, hopened, hresult, ?_⟩
  obtain ⟨found, foundLog, hfound, hquery⟩ := Client.ofConfig_of_validate hvalid
  cases hopened.symm.trans hfound
  obtain ⟨query, lastRequest, minimum⟩ := opened
  cases hquery
  exact ⟨_, rfl, hsent _ _ rfl⟩

end DocSearch
