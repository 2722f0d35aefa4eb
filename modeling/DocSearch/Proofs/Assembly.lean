import DocSearch.Proofs.ValueShape
import DocSearch.Proofs.Writes

/-!
# Assembled requests

The flat request of a query state has a parameter for each attribute that is set, and a search
moves all of them but the index and the document type into its body. Both are given here as tables
of all nine parameters, in which values may be missing.

* `Json.Fields.get?_listed`, `Json.Fields.filter_listed`: the fields of such a table.
* `Compile.parametersOf`: the table of a query state.
* `Compile.resolve_eq`, `Compile.search_eq`: the two requests, with the errors in the order in
  which they are found.
* `Compile.bodyFields_append_targetFields_perm`: a search has the parameters of the flat request.
* `Compile.requests_assembled`: all of it, for any query state.
-/

namespace DocSearch

/-! ## Tables with missing values -/

namespace Json.Fields

variable {table : List (String × Option Json)} {key : String}

/-- The fields of a table, without those that have no value. -/
def listed (table : List (String × Option Json)) : Fields :=
  table.filterMap fun entry => entry.2.map (entry.1, ·)

theorem sublist_keys_listed (table : List (String × Option Json)) :
    ((listed table).map Prod.fst).Sublist (table.map Prod.fst) := by
  induction table with
  | nil => exact .slnil
  | cons entry table ih =>
    obtain ⟨key, value⟩ := entry
    cases value with
    | none => exact ih.cons key
    | some value => exact ih.cons_cons key

theorem ascending_listed (h : (table.map Prod.fst).Pairwise (· < ·)) : (listed table).Ascending :=
  ascending_iff_keys.mpr (h.sublist (sublist_keys_listed table))

/-- In a table with different keys the value of a key is where the key stands. -/
theorem get?_listed (h : (table.map Prod.fst).Nodup) :
    get? (listed table) key = (table.lookup key).join := by
  induction table with
  | nil => rfl
  | cons entry table ih =>
    obtain ⟨name, value⟩ := entry
    obtain ⟨hname, hnodup⟩ := List.nodup_cons.mp h
    have hrest := ih hnodup
    by_cases hkey : key = name
    · have hnone : get? (listed table) key = none := by
        by_contra hsome
        obtain ⟨held, hheld⟩ := Option.ne_none_iff_exists'.mp hsome
        have hmem := (sublist_keys_listed table).mem (List.mem_map_of_mem (mem_of_get? hheld))
        exact hname (hkey ▸ hmem)
      rw [hkey] at hnone ⊢
      rw [lookup_cons_eq, if_pos rfl]
      cases value with
      | none => exact hnone
      | some value => exact get?_cons.trans (if_pos rfl)
    · rw [lookup_cons_eq, if_neg hkey, ← hrest]
      cases value with
      | none => rfl
      | some value => exact get?_cons.trans (if_neg hkey)

theorem filter_listed (table : List (String × Option Json)) (p : String → Bool) :
    (listed table).filter (fun field => p field.1) =
      listed (table.filter fun entry => p entry.1) := by
  induction table with
  | nil => rfl
  | cons entry table ih =>
    obtain ⟨key, value⟩ := entry
    cases value <;> cases hp : p key <;> simp_all [listed]

theorem mem_keys_iff {fields : Fields} : key ∈ fields.map Prod.fst ↔ (get? fields key).isSome := by
  induction fields with
  | nil => simp [get?]
  | cons field fields ih =>
    rw [get?_cons, List.map_cons, List.mem_cons, ih]
    by_cases h : key = field.1 <;> simp [h]

/-- Under a name stands the last of the values that it was assigned. -/
theorem get?_ofList (assignments : List (String × Json)) (key : String) :
    get? (ofList assignments) key = get? assignments.reverse key := by
  induction assignments using List.reverseRecOn with
  | nil => rfl
  | append_singleton assignments a ih =>
    rw [ofList_concat, get?_insert, ih, List.reverse_append]
    exact get?_cons.symm

end Json.Fields

namespace Compile

/-! ## The parameters of a query state -/

/-- The value of each parameter of a query state, if there is one. The names are in order, and
`tree` is the query document. -/
def parametersOf (q : QueryState) (tree : Json) : List (String × Option Json) :=
  [("_source", if q.columns = [] then none else some (.array (q.columns.map .text))),
    ("aggs", if q.aggregations = [] then none
      else some (.object (Json.Fields.ofList q.aggregations))),
    ("from", (q.offset.filter (· ≠ 0)).map .count),
    ("index", (q.index.filter (· ≠ "")).map .text),
    ("query", if q.predicates = [] then none else some tree),
    ("scroll", (q.scroll.filter (· ≠ "")).map .text),
    ("size", (q.limit.filter (· ≠ 0)).map .count),
    ("sort", if q.sorts = [] then none
      else some (.array (q.sorts.map fun sort => .object [(sort.1, sort.2)]))),
    ("type", (q.documentType.filter (· ≠ "")).map .text)]

/-- The names of the parameters that say what a request is for. -/
def targetNames : List String := ["index", "type"]

/-- The parameters of the flat request. -/
def flatFields (q : QueryState) (tree : Json) : Json.Fields := .listed (parametersOf q tree)

/-- The parameters that a search moves into its body. -/
def bodyFields (q : QueryState) (tree : Json) : Json.Fields :=
  .listed ((parametersOf q tree).filter (·.1 ∉ targetNames))

/-- The parameters that stay beside the body of a search. -/
def targetFields (q : QueryState) (tree : Json) : Json.Fields :=
  .listed ((parametersOf q tree).filter (·.1 ∈ targetNames))

variable {q : QueryState} {tree : Json} {request : Request}

/-- The attributes in the order of the names of their parameters. -/
def orderedAttributes : List Attribute :=
  [.columns, .aggregations, .offset, .index, .wheres, .scroll, .limit, .orders, .documentType]

theorem keys_parametersOf (q : QueryState) (tree : Json) :
    (parametersOf q tree).map Prod.fst = orderedAttributes.map parameter := rfl

theorem ascending_keys (q : QueryState) (tree : Json) :
    ((parametersOf q tree).map Prod.fst).Pairwise (· < ·) := by
  rw [keys_parametersOf]
  decide

theorem nodup_keys (q : QueryState) (tree : Json) : ((parametersOf q tree).map Prod.fst).Nodup :=
  (ascending_keys q tree).imp String.ne_of_lt

/-- The parameter of a list is there if the list is not empty. -/
theorem ite_nil {α β : Type} (l : List α) (b : β) :
    (if l = [] then none else some b) = if !l.isEmpty then some b else none := by
  cases l <;> rfl

/-- What stands in the table for an attribute. The value of the predicates is the document that the
table is made with. -/
theorem lookup_parametersOf (q : QueryState) (tree : Json) (a : Attribute) :
    ((parametersOf q tree).lookup (parameter a)).join =
      if q.isSet a then (if a = .wheres then some tree else (parameterValue q a).toOption)
      else none := by
  cases a with
  | limit => exact (toOption_ofCount? q.limit).symm
  | offset => exact (toOption_ofCount? q.offset).symm
  | index => exact (toOption_ofText? q.index).symm
  | documentType => exact (toOption_ofText? q.documentType).symm
  | scroll => exact (toOption_ofText? q.scroll).symm
  | columns => exact ite_nil q.columns _
  | wheres => exact ite_nil q.predicates tree
  | orders => exact ite_nil q.sorts _
  | aggregations => exact ite_nil q.aggregations _

theorem lookup_parametersOf_of_query (h : query q = .ok tree) (a : Attribute) :
    ((parametersOf q tree).lookup (parameter a)).join =
      if q.isSet a then (parameterValue q a).toOption else none := by
  rw [lookup_parametersOf]
  by_cases ha : a = .wheres
  · rw [if_pos ha, ha, parameterValue, h]
    rfl
  · rw [if_neg ha]

theorem isSome_lookup_parametersOf (q : QueryState) (tree : Json) (a : Attribute) :
    ((parametersOf q tree).lookup (parameter a)).join.isSome = q.isSet a := by
  rw [lookup_parametersOf]
  cases q.isSet a with
  | false => rfl
  | true =>
    by_cases ha : a = .wheres
    · rw [if_pos rfl, if_pos ha]
      rfl
    · obtain ⟨value, hvalue⟩ := exists_parameterValue_iff.mpr fun hwheres => absurd hwheres ha
      rw [if_pos rfl, if_neg ha, hvalue]
      rfl

/-- A parameter is there if and only if its attribute is set. -/
theorem mem_keys_flatFields_iff (q : QueryState) (tree : Json) (a : Attribute) :
    parameter a ∈ (flatFields q tree).map Prod.fst ↔ q.isSet a = true := by
  rw [Json.Fields.mem_keys_iff, flatFields, Json.Fields.get?_listed (nodup_keys q tree),
    isSome_lookup_parametersOf]

/-! ## The flat request -/

theorem ascending_addParameters {attributes : List Attribute} {start : Request}
    (hstart : start.params.Ascending) (h : addParameters q attributes start = .ok request) :
    request.params.Ascending := by
  induction attributes generalizing start with
  | nil =>
    cases h
    exact hstart
  | cons a attributes ih =>
    obtain ⟨value, -, hrest⟩ := addParameters_cons_eq_ok_iff.mp h
    exact ih (Json.Fields.ascending_insert hstart) hrest

theorem params_of_resolve (hquery : query q = .ok tree) (h : resolve q = .ok request) :
    request.params = flatFields q tree := by
  have hascending : request.params.Ascending :=
    ascending_addParameters .nil (resolve_eq_ok_iff.mp h).1
  refine Json.Fields.eq_of_get? hascending
    (Json.Fields.ascending_listed (ascending_keys q tree)) fun key => ?_
  rw [flatFields, Json.Fields.get?_listed (nodup_keys q tree)]
  by_cases hkey : ∃ a, parameter a = key
  · obtain ⟨a, rfl⟩ := hkey
    rw [lookup_parametersOf_of_query hquery]
    exact get?_resolve h
  · -- neither has anything under a name that is no parameter's
    have hrequest : request.params.get? key = none := by
      by_contra hsome
      obtain ⟨value, hvalue⟩ := Option.ne_none_iff_exists'.mp hsome
      obtain ⟨a, -, heq, -⟩ := mem_resolve h (Json.Fields.mem_of_get? hvalue)
      exact hkey ⟨a, heq.symm⟩
    have htable : (parametersOf q tree).lookup key = none := by
      refine List.lookup_eq_none_iff.mpr fun entry hentry => bne_iff_ne.mpr fun heq => hkey ?_
      have hmem : key ∈ orderedAttributes.map parameter := heq ▸ List.mem_map_of_mem hentry
      obtain ⟨a, -, ha⟩ := List.mem_map.mp hmem
      exact ⟨a, ha⟩
    rw [hrequest, htable]
    rfl

/-! ## The assembled requests -/

/-- The query document of a state that names an index. The predicates are compiled first. -/
def indexedQuery (q : QueryState) : Except CompileError Json := do
  let tree ← query q
  if q.index.getD "" = "" then throw .missingIndex else return tree

theorem indexedQuery_of_error {e : CompileError} (h : query q = .error e) :
    indexedQuery q = .error e := by
  rw [indexedQuery, h]
  rfl

theorem indexedQuery_of_ok (h : query q = .ok tree) :
    indexedQuery q = if q.index.getD "" = "" then .error .missingIndex else .ok tree := by
  rw [indexedQuery, h]
  rfl

theorem isSet_index_eq (q : QueryState) : q.isSet .index = decide (q.index.getD "" ≠ "") := by
  cases hindex : q.index <;> simp [QueryState.isSet, hindex]

theorem resolve_eq (q : QueryState) :
    resolve q = (indexedQuery q).map fun tree => ⟨flatFields q tree⟩ := by
  cases hquery : query q with
  | error e =>
    rw [resolve_of_query_error hquery, indexedQuery_of_error hquery]
    rfl
  | ok tree =>
    rw [indexedQuery_of_ok hquery]
    by_cases hindex : q.index.getD "" = ""
    · have hunset : q.isSet .index = false := by rw [isSet_index_eq, hindex]; rfl
      rw [resolve_of_no_index ⟨tree, hquery⟩ hunset, if_pos hindex]
      rfl
    · have hset : q.isSet .index = true := by rw [isSet_index_eq]; exact decide_eq_true hindex
      obtain ⟨request, hrequest⟩ := exists_resolve_iff.mpr ⟨hset, tree, hquery⟩
      have hparams : request.params = flatFields q tree := params_of_resolve hquery hrequest
      rw [hrequest, if_neg hindex, Except.map, ← hparams]

theorem searchFields_flatFields (q : QueryState) (tree : Json) :
    searchFields ⟨flatFields q tree⟩ = bodyFields q tree := by
  have hnames : ∀ key : String,
      ((key ≠ "type" : Bool) && (key ≠ "index" : Bool)) = decide (key ∉ targetNames) := by
    intro key
    by_cases hindex : key = "index" <;> by_cases htype : key = "type" <;>
      simp [targetNames, hindex, htype]
  rw [bodyFields, ← Json.Fields.filter_listed _ fun key => key ∉ targetNames]
  simp only [searchFields, Request.erase, Json.Fields.erase, List.filter_filter, flatFields, hnames]

theorem targetFields_eq (q : QueryState) (tree : Json) :
    targetFields q tree =
      .listed [("index", (q.index.filter (· ≠ "")).map .text),
        ("type", (q.documentType.filter (· ≠ "")).map .text)] := rfl

/-- The body of a search comes before its target, in the order of the names. -/
theorem searchOf_flatFields (q : QueryState) (tree body : Json) :
    (targetOf ⟨flatFields q tree⟩).insert "body" body =
      ⟨("body", body) :: targetFields q tree⟩ := by
  have hindex : (⟨flatFields q tree⟩ : Request).get? "index" =
      (q.index.filter (· ≠ "")).map .text :=
    Json.Fields.get?_listed (nodup_keys q tree)
  have htype : (⟨flatFields q tree⟩ : Request).get? "type" =
      (q.documentType.filter (· ≠ "")).map .text :=
    Json.Fields.get?_listed (nodup_keys q tree)
  rw [targetOf, hindex, htype, targetFields_eq]
  cases (q.index.filter (· ≠ "")) <;> cases (q.documentType.filter (· ≠ "")) <;> rfl

theorem search_eq (q : QueryState) :
    search q = (indexedQuery q).map fun tree =>
      ⟨("body", .object (bodyFields q tree)) :: targetFields q tree⟩ := by
  rw [search, resolve_eq]
  cases indexedQuery q with
  | error e => rfl
  | ok tree =>
    have hbody : (((⟨flatFields q tree⟩ : Request).erase "index").erase "type").toJson =
        .object (bodyFields q tree) :=
      congrArg Json.object (searchFields_flatFields q tree)
    exact congrArg Except.ok (hbody ▸ searchOf_flatFields q tree _)

/-- Nothing of the flat request is lost or sent twice. -/
theorem bodyFields_append_targetFields_perm (q : QueryState) (tree : Json) :
    (bodyFields q tree ++ targetFields q tree).Perm (flatFields q tree) := by
  have hbody : bodyFields q tree =
      (flatFields q tree).filter fun field => !field.1 ∈ targetNames := by
    rw [flatFields, Json.Fields.filter_listed _ fun key => !decide (key ∈ targetNames)]
    simp only [bodyFields, decide_not]
  have htarget : targetFields q tree =
      (flatFields q tree).filter fun field => field.1 ∈ targetNames :=
    (Json.Fields.filter_listed _ fun key => key ∈ targetNames).symm
  rw [hbody, htarget]
  exact List.perm_append_comm.trans (List.filter_append_perm _ _)

theorem nodup_keys_flatFields (q : QueryState) (tree : Json) :
    ((flatFields q tree).map Prod.fst).Nodup :=
  (nodup_keys q tree).sublist (Json.Fields.sublist_keys_listed _)

/-- **Requests are assembled in full.** A query state resolves to its error if its predicates do
not compile, and without an index, or with an empty one, to an error of its own. Any other state
resolves to its parameters, and to nothing else: each attribute that is set has one. A search is
made or fails likewise; it has in its body the parameters that are not beside it. -/
theorem requests_assembled (q : QueryState) :
    resolve q = (indexedQuery q).map (fun tree => ⟨flatFields q tree⟩) ∧
      search q = (indexedQuery q).map (fun tree =>
        ⟨("body", .object (bodyFields q tree)) :: targetFields q tree⟩) ∧
      ∀ tree,
        (∀ a, parameter a ∈ (flatFields q tree).map Prod.fst ↔ q.isSet a = true) ∧
        (bodyFields q tree ++ targetFields q tree).Perm (flatFields q tree) ∧
        ((bodyFields q tree ++ targetFields q tree).map Prod.fst).Nodup ∧
        ∀ name, (Json.Fields.ofList q.aggregations).get? name =
          Json.Fields.get? q.aggregations.reverse name := by
  refine ⟨resolve_eq q, search_eq q, fun tree => ⟨mem_keys_flatFields_iff q tree, ?_, ?_, ?_⟩⟩
  · exact bodyFields_append_targetFields_perm q tree
  · have hkeys := (bodyFields_append_targetFields_perm q tree).map Prod.fst
    exact hkeys.nodup_iff.mpr (nodup_keys_flatFields q tree)
  · exact Json.Fields.get?_ofList q.aggregations

/-- Neither the empty document type nor the offset of zero is sent. -/
example :
    search { index := some "users", documentType := some "", columns := ["name"], offset := some 0 } =
      .ok ⟨[("body", .object [("_source", .array [.text "name"])]), ("index", .text "users")]⟩ := rfl

end Compile

end DocSearch
