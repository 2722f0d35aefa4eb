import DocSearch.Compile.Resolve
import DocSearch.Proofs.Fields
import DocSearch.Proofs.Results
import Mathlib.Tactic.Common

/-!
# Compiled requests

What the requests of a query state hold. The flat request has the parameter of an attribute
exactly if the attribute is set (`get?_resolve`) and no parameter besides (`mem_resolve`). It is
there if an index is set and the predicates compile (`exists_resolve_iff`). The request of an
operation is its target with an id, a body or both, and nothing else: `search_eq_ok_iff`,
`create_eq_ok_iff`, `update_eq_ok_iff`, `delete_eq_ok_iff`, `flush_eq_ok_iff`.
-/

namespace DocSearch

/-- The request for a target with a body and an id, in the order of the names of its
parameters. -/
def Request.assembled (body : Option Json) (id : Option String) (index : String)
    (documentType : Option String) : Request :=
  ⟨body.toList.map (("body", ·)) ++ id.toList.map (("id", .text ·)) ++
    ("index", .text index) :: documentType.toList.map (("type", .text ·))⟩

/-- The target that a query state names. An empty index is none, and neither is an empty
document type. -/
structure QueryState.Names (q : QueryState) (index : String) (documentType : Option String) :
    Prop where
  index_eq : q.index = some index
  index_ne : index ≠ ""
  type_eq : documentType = q.documentType.filter (· ≠ "")

theorem QueryState.Names.type_ne {q : QueryState} {index : String} {documentType : Option String}
    (h : q.Names index documentType) : documentType ≠ some "" := by
  rintro rfl
  simpa using (Option.filter_eq_some_iff.mp h.type_eq.symm).2

theorem QueryState.isSet_index_iff {q : QueryState} :
    q.isSet .index = true ↔ ∃ index documentType, q.Names index documentType := by
  constructor
  · intro h
    cases hindex : q.index with
    | none => simp [QueryState.isSet, hindex] at h
    | some index => exact ⟨index, _, hindex, by simpa [QueryState.isSet, hindex] using h, rfl⟩
  · rintro ⟨index, documentType, h⟩
    simp [QueryState.isSet, h.index_eq, h.index_ne]

namespace Compile

variable {q : QueryState} {attributes : List Attribute} {a : Attribute}
  {request start : Request} {key : String} {value : Json}

theorem parameter_injective : Function.Injective parameter := by
  intro a b h
  cases a <;> cases b <;> first | rfl | simp [parameter] at h

/-! ## The parameters of attributes -/

theorem addParameters_cons_eq_ok_iff :
    addParameters q (a :: attributes) start = .ok request ↔
      ∃ value, parameterValue q a = .ok value ∧
        addParameters q attributes (start.insert (parameter a) value) = .ok request :=
  bind_eq_ok_iff

theorem exists_addParameters_iff :
    (∃ request, addParameters q attributes start = .ok request) ↔
      ∀ a ∈ attributes, ∃ value, parameterValue q a = .ok value := by
  induction attributes generalizing start with
  | nil => exact iff_of_true ⟨start, rfl⟩ (by simp)
  | cons a attributes ih =>
    simp only [addParameters_cons_eq_ok_iff, List.forall_mem_cons]
    constructor
    · rintro ⟨request, value, hvalue, hrequest⟩
      exact ⟨⟨value, hvalue⟩, ih.mp ⟨request, hrequest⟩⟩
    · rintro ⟨⟨value, hvalue⟩, hrest⟩
      obtain ⟨request, hrequest⟩ := ih.mpr hrest
      exact ⟨request, value, hvalue, hrequest⟩

theorem get?_addParameters_of_not_mem (h : addParameters q attributes start = .ok request)
    (hkey : ∀ a ∈ attributes, key ≠ parameter a) : request.get? key = start.get? key := by
  induction attributes generalizing start with
  | nil =>
    cases h
    rfl
  | cons a attributes ih =>
    obtain ⟨value, -, hrest⟩ := addParameters_cons_eq_ok_iff.mp h
    rw [ih hrest fun b hb => hkey b (List.mem_cons_of_mem _ hb)]
    exact Json.Fields.get?_insert.trans (if_neg (hkey a List.mem_cons_self))

theorem get?_addParameters_of_mem (h : addParameters q attributes start = .ok request)
    (ha : a ∈ attributes) :
    ∃ value, parameterValue q a = .ok value ∧ request.get? (parameter a) = some value := by
  induction attributes generalizing start with
  | nil => cases ha
  | cons b attributes ih =>
    obtain ⟨value, hvalue, hrest⟩ := addParameters_cons_eq_ok_iff.mp h
    -- If the attribute comes again its later value stands; both are the same.
    by_cases hmem : a ∈ attributes
    · exact ih hrest hmem
    · obtain rfl : a = b := (List.mem_cons.mp ha).resolve_right hmem
      refine ⟨value, hvalue, ?_⟩
      have hkeys : ∀ b ∈ attributes, parameter a ≠ parameter b := by
        intro b hb heq
        exact hmem (parameter_injective heq ▸ hb)
      rw [get?_addParameters_of_not_mem hrest hkeys]
      exact Json.Fields.get?_insert.trans (if_pos rfl)

theorem mem_addParameters (h : addParameters q attributes start = .ok request)
    (hfield : (key, value) ∈ request.params) :
    (key, value) ∈ start.params ∨
      ∃ a ∈ attributes, key = parameter a ∧ parameterValue q a = .ok value := by
  induction attributes generalizing start with
  | nil =>
    cases h
    exact Or.inl hfield
  | cons a attributes ih =>
    obtain ⟨held, hheld, hrest⟩ := addParameters_cons_eq_ok_iff.mp h
    rcases ih hrest with hstart | ⟨b, hb, hkey, hvalue⟩
    · rcases Json.Fields.mem_insert hstart with heq | hstart
      · cases heq
        exact Or.inr ⟨a, List.mem_cons_self, rfl, hheld⟩
      · exact Or.inl hstart
    · exact Or.inr ⟨b, List.mem_cons_of_mem _ hb, hkey, hvalue⟩

/-! ## The flat request -/

theorem mem_setAttributes : a ∈ Attribute.all.filter q.isSet ↔ q.isSet a = true := by
  have hall : a ∈ Attribute.all := by cases a <;> decide
  simp [hall]

/-- The parameters of the flat request, before it is asked for an index. -/
theorem get?_addParameters (h : addParameters q (Attribute.all.filter q.isSet) {} = .ok request) :
    request.get? (parameter a) =
      if q.isSet a then (parameterValue q a).toOption else none := by
  by_cases hset : q.isSet a = true
  · obtain ⟨value, hvalue, hget⟩ := get?_addParameters_of_mem h (mem_setAttributes.mpr hset)
    rw [if_pos hset, hget, hvalue]
    rfl
  · rw [if_neg hset]
    refine get?_addParameters_of_not_mem h fun b hb heq => hset ?_
    rw [parameter_injective heq]
    exact mem_setAttributes.mp hb

theorem contains_index_iff
    (h : addParameters q (Attribute.all.filter q.isSet) {} = .ok request) :
    request.contains "index" = true ↔ q.isSet .index = true := by
  have hget : request.get? "index" = _ := get?_addParameters (a := .index) h
  rw [Request.contains, hget]
  by_cases hset : q.isSet .index = true
  · simp [hset, parameterValue, Except.toOption]
  · simp [hset]

theorem resolve_eq_ok_iff :
    resolve q = .ok request ↔
      addParameters q (Attribute.all.filter q.isSet) {} = .ok request ∧
        q.isSet .index = true := by
  refine bind_eq_ok_iff.trans ?_
  constructor
  · rintro ⟨found, hfound, hindex⟩
    split at hindex
    case isTrue hcontains =>
      cases hindex
      exact ⟨hfound, (contains_index_iff hfound).mp hcontains⟩
    case isFalse => cases hindex
  · rintro ⟨hfound, hset⟩
    exact ⟨request, hfound, if_pos ((contains_index_iff hfound).mpr hset)⟩

/-- Only the predicates have a parameter that may not compile. -/
theorem exists_parameterValue_iff :
    (∃ value, parameterValue q a = .ok value) ↔ (a = .wheres → ∃ d, query q = .ok d) := by
  cases a <;> simp [parameterValue]

theorem query_of_no_predicates (h : q.predicates = []) : query q = .ok matchAll := by
  simp [query, h, members, Except.map, queryOf]

theorem exists_resolve_iff :
    (∃ request, resolve q = .ok request) ↔ q.isSet .index = true ∧ ∃ d, query q = .ok d := by
  simp only [resolve_eq_ok_iff, exists_and_right, exists_addParameters_iff, mem_setAttributes,
    exists_parameterValue_iff]
  -- The predicates compile whether they are set or not: no predicates compile to a clause.
  refine and_comm.trans (and_congr_right fun _ => ?_)
  constructor
  · intro h
    by_cases hset : q.isSet .wheres = true
    · exact h .wheres hset rfl
    · exact ⟨matchAll, query_of_no_predicates (by simpa [QueryState.isSet] using hset)⟩
  · intro h _ _ _
    exact h

theorem get?_resolve (h : resolve q = .ok request) :
    request.get? (parameter a) =
      if q.isSet a then (parameterValue q a).toOption else none :=
  get?_addParameters (resolve_eq_ok_iff.mp h).1

theorem mem_resolve (h : resolve q = .ok request) (hfield : (key, value) ∈ request.params) :
    ∃ a, q.isSet a = true ∧ key = parameter a ∧ parameterValue q a = .ok value := by
  rcases mem_addParameters (resolve_eq_ok_iff.mp h).1 hfield with hnil | ⟨a, ha, hkey, hvalue⟩
  · cases hnil
  · exact ⟨a, mem_setAttributes.mp ha, hkey, hvalue⟩

/-- The parameter of a count is there if the count is not zero. -/
theorem toOption_ofCount? (n : Option UInt64) :
    (if n.any (· ≠ 0) then (Except.ok (ε := CompileError) (Json.ofCount? n)).toOption else none) =
      (n.filter (· ≠ 0)).map Json.count := by
  cases n with
  | none => rfl
  | some n => by_cases h : n = 0 <;> simp [h, Except.toOption, Json.ofCount?, Option.filter]

/-- The parameter of a text is there if the text is not empty. -/
theorem toOption_ofText? (s : Option String) :
    (if s.any (· ≠ "") then (Except.ok (ε := CompileError) (Json.ofText? s)).toOption else none) =
      (s.filter (· ≠ "")).map Json.text := by
  cases s with
  | none => rfl
  | some s => by_cases h : s = "" <;> simp [h, Except.toOption, Json.ofText?, Option.filter]

/-! ## The requests of the operations -/

section Operations

variable {index : String} {documentType : Option String} {body : Json} {id : Option String}

theorem assembled_insert_id {id : String} :
    (Request.assembled none none index documentType).insert "id" (.text id) =
      .assembled none (some id) index documentType := by
  cases documentType <;> rfl

theorem assembled_insert_body :
    (Request.assembled none id index documentType).insert "body" body =
      .assembled (some body) id index documentType := by
  cases id <;> cases documentType <;> rfl

theorem targetOf_resolve (hnames : q.Names index documentType) (h : resolve q = .ok request) :
    targetOf request = .assembled none none index documentType := by
  have hindex : request.get? "index" = some (.text index) := by
    refine (get?_resolve (a := .index) h).trans ((toOption_ofText? q.index).trans ?_)
    simp [hnames.index_eq, hnames.index_ne, Option.filter]
  have htype : request.get? "type" = documentType.map .text := by
    refine (get?_resolve (a := .documentType) h).trans ((toOption_ofText? q.documentType).trans ?_)
    rw [hnames.type_eq]
  rw [targetOf, hindex, htype]
  cases documentType <;> rfl

/-- The fields that a search sends, of those of the flat request. -/
def searchFields (resolved : Request) : Json.Fields :=
  ((resolved.erase "index").erase "type").params

theorem get?_searchFields (h : resolve q = .ok request) (hindex : a ≠ .index)
    (htype : a ≠ .documentType) :
    (searchFields request).get? (parameter a) =
      if q.isSet a then (parameterValue q a).toOption else none := by
  have hne : parameter a ≠ "type" ∧ parameter a ≠ "index" :=
    ⟨parameter_injective.ne htype, parameter_injective.ne hindex⟩
  rw [searchFields, Request.erase, Json.Fields.get?_erase, if_neg hne.1, Request.erase,
    Json.Fields.get?_erase, if_neg hne.2]
  exact get?_resolve h

theorem mem_searchFields (h : resolve q = .ok request)
    (hfield : (key, value) ∈ searchFields request) :
    key ≠ "index" ∧ key ≠ "type" ∧
      ∃ a, q.isSet a = true ∧ key = parameter a ∧ parameterValue q a = .ok value := by
  obtain ⟨hfield, htype⟩ := Json.Fields.mem_erase.mp hfield
  obtain ⟨hfield, hindex⟩ := Json.Fields.mem_erase.mp hfield
  exact ⟨hindex, htype, mem_resolve h hfield⟩

theorem search_of_resolve (hnames : q.Names index documentType) (h : resolve q = .ok request) :
    search q =
      .ok (.assembled (some (.object (searchFields request))) none index documentType) := by
  rw [search, h]
  simp only [bind, Except.bind, pure, Except.pure, targetOf_resolve hnames h,
    assembled_insert_body]
  rfl

theorem search_eq_ok_iff :
    search q = .ok request ↔
      ∃ resolved index documentType, resolve q = .ok resolved ∧ q.Names index documentType ∧
        request = .assembled (some (.object (searchFields resolved))) none index documentType := by
  constructor
  · intro h
    obtain ⟨resolved, hresolve, -⟩ := bind_eq_ok_iff.mp h
    obtain ⟨index, documentType, hnames⟩ :=
      QueryState.isSet_index_iff.mp (exists_resolve_iff.mp ⟨resolved, hresolve⟩).1
    rw [search_of_resolve hnames hresolve] at h
    cases h
    exact ⟨resolved, index, documentType, hresolve, hnames, rfl⟩
  · rintro ⟨resolved, index, documentType, hresolve, hnames, rfl⟩
    exact search_of_resolve hnames hresolve

/-- A write starts from the target, and takes no more of a query state than that. -/
theorem target_eq_ok_iff :
    target q = .ok request ↔
      (∃ d, query q = .ok d) ∧ ∃ index documentType, q.Names index documentType ∧
        request = .assembled none none index documentType := by
  constructor
  · intro h
    obtain ⟨resolved, hresolve, rfl⟩ := map_eq_ok_iff.mp h
    obtain ⟨hindex, hquery⟩ := exists_resolve_iff.mp ⟨resolved, hresolve⟩
    obtain ⟨index, documentType, hnames⟩ := QueryState.isSet_index_iff.mp hindex
    exact ⟨hquery, index, documentType, hnames, targetOf_resolve hnames hresolve⟩
  · rintro ⟨hquery, index, documentType, hnames, rfl⟩
    obtain ⟨resolved, hresolve⟩ :=
      exists_resolve_iff.mpr ⟨QueryState.isSet_index_iff.mpr ⟨_, _, hnames⟩, hquery⟩
    rw [target, hresolve, Except.map, targetOf_resolve hnames hresolve]

/-- What a write makes of its target. -/
theorem target_bind_eq_ok_iff {change : Request → Request} :
    (target q >>= fun request => .ok (change request)) = .ok request ↔
      (∃ d, query q = .ok d) ∧ ∃ index documentType, q.Names index documentType ∧
        request = change (.assembled none none index documentType) := by
  refine bind_eq_ok_iff.trans ?_
  constructor
  · rintro ⟨start, htarget, hchange⟩
    obtain ⟨hquery, index, documentType, hnames, rfl⟩ := target_eq_ok_iff.mp htarget
    cases hchange
    exact ⟨hquery, index, documentType, hnames, rfl⟩
  · rintro ⟨hquery, index, documentType, hnames, rfl⟩
    exact ⟨_, target_eq_ok_iff.mpr ⟨hquery, index, documentType, hnames, rfl⟩, rfl⟩

theorem create_eq_ok_iff {document : Json} :
    create q id document = .ok request ↔
      (∃ d, query q = .ok d) ∧ ∃ index documentType, q.Names index documentType ∧
        request = .assembled (some document) id index documentType := by
  refine target_bind_eq_ok_iff.trans ?_
  cases id with
  | none => simp only [Option.map_none, Request.insert?, Option.elim_none, assembled_insert_body]
  | some id =>
    simp only [Option.map_some, Request.insert?, Option.elim_some, assembled_insert_id,
      assembled_insert_body]

theorem update_eq_ok_iff {id : String} {changes : Json} :
    update q id changes = .ok request ↔
      (∃ d, query q = .ok d) ∧ ∃ index documentType, q.Names index documentType ∧
        request = .assembled (some (.single "doc" changes)) (some id) index documentType := by
  refine target_bind_eq_ok_iff.trans ?_
  simp only [assembled_insert_id, assembled_insert_body]

theorem delete_eq_ok_iff {id : String} :
    delete q id = .ok request ↔
      (∃ d, query q = .ok d) ∧ ∃ index documentType, q.Names index documentType ∧
        request = .assembled none (some id) index documentType := by
  refine target_bind_eq_ok_iff.trans ?_
  simp only [assembled_insert_id]

theorem flush_eq_ok_iff :
    flush q = .ok request ↔
      (∃ d, query q = .ok d) ∧ ∃ index documentType, q.Names index documentType ∧
        request = .assembled (some (.single "query" matchAll)) none index documentType := by
  refine target_bind_eq_ok_iff.trans ?_
  simp only [assembled_insert_body]

end Operations

end Compile

end DocSearch
