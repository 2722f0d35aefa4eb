import DocSearch.Proofs.Descriptions
import DocSearch.Proofs.Members
import DocSearch.Proofs.OrderedValues
import DocSearch.Proofs.RequestTexts
import DocSearch.Proofs.Requests

/-!
# Requests in order

The fields of every object in a request stand in the order of their keys, as long as they do so in
the values that callers give. They do so in what is read from a text, and therefore in each request
that is compiled from a description.

* `QueryState.Ordered.setFields`: setting attributes to ordered values keeps a query state ordered.
* `Compile.ordered_search`, `Compile.ordered_flush`: the request of an ordered query state is
  ordered.
* `CommandLine.ordered_of_compileDescription`: so is the request of a description.
-/

namespace DocSearch

/-! ## What is declared -/

/-- The values that are tested for are ordered. -/
inductive Predicate.Ordered : Predicate → Prop
  | basic {column : String} {leaf : LeafKind} {operator : Option Operator} {value : Json}
      {joined : Conjunction} (hvalue : value.Ordered) :
      Ordered (.basic column leaf operator value joined)
  | nested {settings : Settings} {members : List Predicate} {joined : Conjunction}
      (hmembers : ∀ p ∈ members, Ordered p) : Ordered (.nested settings members joined)

/-- All values in a query state are ordered. -/
structure QueryState.Ordered (q : QueryState) : Prop where
  predicates : ∀ p ∈ q.predicates, p.Ordered
  sorts : ∀ sort ∈ q.sorts, sort.2.Ordered
  aggregations : ∀ a ∈ q.aggregations, a.2.Ordered

theorem mem_upsert {key : String} {value : Json} {entries : List (String × Json)}
    {entry : String × Json} (h : entry ∈ upsert key value entries) :
    entry.2 = value ∨ entry ∈ entries := by
  induction entries with
  | nil => exact Or.inl (congrArg Prod.snd (List.mem_singleton.mp h))
  | cons next entries ih =>
    rw [upsert] at h
    split at h
    · rcases List.mem_cons.mp h with rfl | h
      · exact Or.inl rfl
      · exact Or.inr (List.mem_cons_of_mem _ h)
    · rcases List.mem_cons.mp h with rfl | h
      · exact Or.inr List.mem_cons_self
      · exact (ih h).imp_right (List.mem_cons_of_mem _)

section Set

variable {q : QueryState} {value spec : Json} {key : String}

theorem Applied.each_preserves {α : Type} {P : QueryState → Prop}
    {apply : QueryState → α → Applied} {items : List α}
    (hstep : ∀ q, P q → ∀ a ∈ items, P (apply q a).state) (hq : P q) :
    P (each apply q items).state := by
  induction items generalizing q with
  | nil => exact hq
  | cons a items ih =>
    have hfirst := hstep q hq a List.mem_cons_self
    rw [each]
    cases happly : apply q a with
    | mk state fault =>
      rw [happly] at hfirst
      cases fault with
      | some e => exact hfirst
      | none => exact ih (fun q hq b hb => hstep q hq b (List.mem_cons_of_mem _ hb)) hfirst

theorem Applied.ofExcept_preserves {α : Type} {P : QueryState → Prop}
    {value : Except InvalidArgument α} {change : QueryState → α → QueryState}
    (hchange : ∀ a, value = .ok a → P (change q a)) (hq : P q) :
    P (ofExcept q value change).state := by
  cases value with
  | error e => exact hq
  | ok a => exact hchange a rfl

namespace QueryState.Ordered

theorem filter {p : Predicate} (h : q.Ordered) (hp : p.Ordered) : (q.filter p).Ordered := by
  refine ⟨fun other hother => ?_, h.sorts, h.aggregations⟩
  rcases List.mem_append.mp hother with hother | hother
  · exact h.predicates other hother
  · exact List.mem_singleton.mp hother ▸ hp

theorem addSort (h : q.Ordered) (hspec : spec.Ordered) : (q.addSort key spec).Ordered := by
  refine ⟨h.predicates, fun sort hsort => ?_, h.aggregations⟩
  rcases mem_upsert hsort with heq | hsort
  · exact heq ▸ hspec
  · exact h.sorts sort hsort

theorem addAggregation (h : q.Ordered) (hspec : spec.Ordered) :
    (q.addAggregation key spec).Ordered := by
  refine ⟨h.predicates, h.sorts, fun a ha => ?_⟩
  rcases mem_upsert ha with heq | ha
  · exact heq ▸ hspec
  · exact h.aggregations a ha

theorem addColumn (h : q.Ordered) : (q.addColumn key).Ordered := by
  unfold QueryState.addColumn
  split
  · exact h
  · exact ⟨h.predicates, h.sorts, h.aggregations⟩

end QueryState.Ordered

theorem Predicate.ordered_of_comparison {column : String} {operator : Option Operator}
    {leaf : LeafKind} {joined : Conjunction} {p : Predicate} (hvalue : value.Ordered)
    (h : comparison column operator value leaf joined = .ok p) : p.Ordered := by
  unfold comparison at h
  dsimp only at h
  split at h
  · cases h
    have hbounds := Json.ordered_array_iff.mp hvalue
    have hkeys : ["gte", "lte"].Pairwise (· < ·) := by decide
    refine .basic (.object (Json.Fields.ascending_iff_keys.mpr hkeys) ?_)
    simpa using hbounds
  · cases h
  · cases h
    exact .basic hvalue

theorem Predicate.ordered_of_describes {p : Predicate} (hvalue : value.Ordered)
    (h : Description.Describes value p) : p.Ordered := by
  induction value using Description.induction generalizing p with
  | other item hitem =>
    cases h with
    | nested => exact absurd rfl (hitem _)
    | test => exact absurd rfl (hitem _)
  | object fields ih =>
    cases h with
    | @nested _ joined items members hjoined hnested hmembers =>
      refine .nested fun p hp => ?_
      have hpaired :
          List.Forall₂ (fun item p => item ∈ items ∧ Description.Describes item p) items members :=
        (List.forall₂_and_left items members).mpr ⟨fun _ hitem => hitem, hmembers⟩
      obtain ⟨item, hitem, hdescribes⟩ := exists_of_forall₂ hpaired.flip hp
      exact ih items hnested item hitem (Json.ordered_array_iff.mp (hvalue.get? hnested) item hitem)
        hdescribes
    | @test _ joined column leaf operator _ hjoined hunnested htest hp =>
      refine Predicate.ordered_of_comparison ?_ hp
      unfold Description.valueOf
      cases hget : fields.get? "value" with
      | none => exact .null
      | some held => exact hvalue.get? hget

theorem ordered_of_sortSpec (hvalue : value.Ordered) (h : sortSpec value = .ok spec) :
    spec.Ordered := by
  unfold sortSpec at h
  split at h
  · obtain ⟨direction, -, rfl⟩ := map_eq_ok_iff.mp h
    simp [SortDirection.spec]
  · cases h
    exact hvalue

namespace QueryState.Ordered

theorem setSort {entry : String × Json} (h : q.Ordered) (hentry : entry.2.Ordered) :
    (q.setSort entry).state.Ordered :=
  Applied.ofExcept_preserves (fun _ hspec => h.addSort (ordered_of_sortSpec hentry hspec)) h

theorem setSorts (h : q.Ordered) (hvalue : value.Ordered) : (q.setSorts value).state.Ordered := by
  unfold QueryState.setSorts
  split
  · have hfields := (Json.ordered_object_iff.mp hvalue).2
    exact Applied.each_preserves (fun _ hq field hfield => hq.setSort (hfields field hfield)) h
  · exact h

theorem setPredicate (h : q.Ordered) (hvalue : value.Ordered) :
    (q.setPredicate value).state.Ordered := by
  refine Applied.ofExcept_preserves (fun p hp => h.filter ?_) h
  exact Predicate.ordered_of_describes hvalue (Description.described_eq_ok_iff.mp hp)

theorem set (h : q.Ordered) (a : Attribute) (hvalue : value.Ordered) :
    (q.set a value).state.Ordered := by
  have hkept : ∀ {other : QueryState}, other.predicates = q.predicates → other.sorts = q.sorts →
      other.aggregations = q.aggregations → other.Ordered := by
    intro other hpredicates hsorts haggregations
    exact ⟨hpredicates ▸ h.predicates, hsorts ▸ h.sorts, haggregations ▸ h.aggregations⟩
  cases a with
  | index => exact Applied.ofExcept_preserves (fun _ _ => hkept rfl rfl rfl) h
  | documentType => exact Applied.ofExcept_preserves (fun _ _ => hkept rfl rfl rfl) h
  | scroll => exact Applied.ofExcept_preserves (fun _ _ => hkept rfl rfl rfl) h
  | limit => exact Applied.ofExcept_preserves (fun _ _ => hkept rfl rfl rfl) h
  | offset => exact Applied.ofExcept_preserves (fun _ _ => hkept rfl rfl rfl) h
  | columns =>
    cases value with
    | text column => exact h.addColumn
    | array items =>
      refine Applied.each_preserves (fun _ hq _ _ => ?_) h
      exact Applied.ofExcept_preserves (fun _ _ => hq.addColumn) hq
    | _ => exact h
  | orders =>
    cases value with
    | array items =>
      have hitems := Json.ordered_array_iff.mp hvalue
      exact Applied.each_preserves (fun _ hq item hitem => hq.setSorts (hitems item hitem)) h
    | object fields => exact h.setSorts hvalue
    | _ => exact h
  | aggregations =>
    cases value with
    | object fields =>
      have hfields := (Json.ordered_object_iff.mp hvalue).2
      exact List.foldlRecOn fields _ h fun _ hq field hfield =>
        hq.addAggregation (hfields field hfield)
    | _ => exact h
  | wheres =>
    cases value with
    | array items =>
      have hitems := Json.ordered_array_iff.mp hvalue
      exact Applied.each_preserves (fun _ hq item hitem => hq.setPredicate (hitems item hitem)) h
    | _ => exact h

theorem setFields {fields : Json.Fields} (h : q.Ordered)
    (hfields : ∀ field ∈ fields, field.2.Ordered) : (q.setFields fields).state.Ordered := by
  refine Applied.each_preserves (fun q hq field hfield => ?_) h
  unfold QueryState.setField
  split
  · exact hq.set _ (hfields field hfield)
  · exact hq

theorem forIndex (index : String) : (QueryState.forIndex index).Ordered :=
  ⟨List.forall_mem_nil _, List.forall_mem_nil _, List.forall_mem_nil _⟩

end QueryState.Ordered

end Set

/-! ## What is compiled -/

namespace Compile

variable {leaf : LeafKind} {operator : Option Operator} {column : String} {value c : Json}

theorem ordered_of_rangeBody (hvalue : value.Ordered)
    (h : rangeBody column operator value = .ok c) : c.Ordered := by
  unfold rangeBody at h
  split at h
  · cases h
    exact hvalue
  · cases h
    exact Json.ordered_single_iff.mpr hvalue
  · cases h
    exact hvalue
  · cases h

theorem ordered_texts (items : List String) : (Json.texts items).Ordered := by
  simp [Json.texts]

theorem ordered_of_plainClause (hvalue : value.Ordered)
    (h : plainClause leaf column value operator = .ok c) : c.Ordered := by
  unfold plainClause at h
  split at h
  case h_5 =>
    obtain ⟨body, hbody, hc⟩ := bind_eq_ok_iff.mp h
    cases hc
    simpa using ordered_of_rangeBody hvalue hbody
  case h_6 =>
    cases h
    have hkeys : ["fields", "query", "type"].Pairwise (· < ·) := by decide
    rw [Json.ordered_single_iff]
    refine .object (Json.Fields.ascending_iff_keys.mpr hkeys) ?_
    simp [ordered_texts, hvalue]
  case h_7 =>
    split at h
    · cases h
      simp
    · cases h
  all_goals
    cases h
    simp [hvalue]

theorem ordered_of_pathClause {clause : String → Except CompileError Json} {path : List Char}
    {steps : List (List Char)} (hclause : ∀ column c, clause column = .ok c → c.Ordered)
    (h : pathClause clause path steps = .ok c) : c.Ordered := by
  induction steps generalizing path c with
  | nil => exact hclause _ _ h
  | cons step steps ih =>
    obtain ⟨inner, hinner, hc⟩ := bind_eq_ok_iff.mp h
    cases hc
    have hkeys : ["path", "query"].Pairwise (· < ·) := by decide
    rw [envelope, Json.ordered_single_iff]
    refine .object (Json.Fields.ascending_iff_keys.mpr hkeys) ?_
    simp [ih hinner]

theorem ordered_of_clause (hvalue : value.Ordered) (h : clause leaf column value operator = .ok c) :
    c.Ordered :=
  ordered_of_pathClause (fun _ _ hc => ordered_of_plainClause hvalue hc) h

theorem ordered_part (key : String) {clauses : List Json} (h : ∀ c ∈ clauses, c.Ordered) :
    (Json.object (part key clauses)).Ordered := by
  unfold part
  split
  · simp [Json.Fields.Ascending]
  · simpa [Json.Fields.Ascending] using h

theorem ordered_parts {key other : String} {clauses others : List Json} (hlt : key < other)
    (hclauses : ∀ c ∈ clauses, c.Ordered) (hothers : ∀ c ∈ others, c.Ordered) :
    (Json.object (part key clauses ++ part other others)).Ordered := by
  obtain ⟨hkeys, hfields⟩ := Json.ordered_object_iff.mp (ordered_part key hclauses)
  obtain ⟨hotherKeys, hotherFields⟩ := Json.ordered_object_iff.mp (ordered_part other hothers)
  refine .object (List.pairwise_append.mpr ⟨hkeys, hotherKeys, ?_⟩)
    (List.forall_mem_append.mpr ⟨hfields, hotherFields⟩)
  have hkey : ∀ {key : String} {clauses : List Json}, ∀ a ∈ part key clauses, a.1 = key := by
    intro key clauses a ha
    unfold part at ha
    split at ha
    · cases ha
    · rw [List.mem_singleton.mp ha]
  intro a ha b hb
  rw [hkey a ha, hkey b hb]
  exact hlt

theorem ordered_joinedPositives {group : List Member} (h : ∀ m ∈ group, m.clause.Ordered) :
    ∀ c ∈ joinedPositives group, c.Ordered := by
  have hpositives : ∀ c ∈ positives group, c.Ordered := by
    intro c hc
    obtain ⟨m, hm, rfl⟩ := List.mem_map.mp hc
    exact h m (List.mem_of_mem_filter hm)
  unfold joinedPositives
  split
  · exact List.forall_mem_nil _
  · rename_i only honly
    exact honly ▸ hpositives
  · simpa [allOf] using hpositives

theorem ordered_negatives {group : List Member} (h : ∀ m ∈ group, m.clause.Ordered) :
    ∀ c ∈ negatives group, c.Ordered := by
  intro c hc
  obtain ⟨m, hm, rfl⟩ := List.mem_map.mp hc
  exact h m (List.mem_of_mem_filter hm)

theorem ordered_boolQuery {groups : List (List Member)}
    (h : ∀ group ∈ groups, ∀ m ∈ group, m.clause.Ordered) : (boolQuery groups).Ordered := by
  have hpositives : ∀ c ∈ groups.flatMap joinedPositives, c.Ordered := by
    intro c hc
    obtain ⟨group, hgroup, hc⟩ := List.mem_flatMap.mp hc
    exact ordered_joinedPositives (h group hgroup) c hc
  have hnegatives : ∀ c ∈ groups.flatMap negatives, c.Ordered := by
    intro c hc
    obtain ⟨group, hgroup, hc⟩ := List.mem_flatMap.mp hc
    exact ordered_negatives (h group hgroup) c hc
  unfold boolQuery
  split
  · rw [Json.ordered_single_iff]
    exact ordered_parts (by decide) hpositives hnegatives
  · have hbranches : ∀ c ∈ groups.flatMap fun group =>
        joinedPositives group ++ (negatives group).map noneOf, c.Ordered := by
      intro c hc
      obtain ⟨group, hgroup, hc⟩ := List.mem_flatMap.mp hc
      rcases List.mem_append.mp hc with hc | hc
      · exact ordered_joinedPositives (h group hgroup) c hc
      · obtain ⟨denied, hdenied, rfl⟩ := List.mem_map.mp hc
        simpa [noneOf] using ordered_negatives (h group hgroup) denied hdenied
    rw [Json.ordered_single_iff]
    exact ordered_part "should" hbranches

theorem ordered_queryOf {ms : List Member} (h : ∀ m ∈ ms, m.clause.Ordered) :
    (queryOf ms).Ordered := by
  unfold queryOf
  split
  · simp [matchAll, Json.Fields.Ascending]
  · exact ordered_boolQuery fun group hgroup m hm => h m (mem_of_mem_priorityGroups hgroup hm)

theorem ordered_document {ps : List Predicate} (h : ∀ p ∈ ps, (clauseOf p).Ordered) :
    (document ps).Ordered := by
  refine ordered_queryOf fun m hm => ?_
  obtain ⟨p, hp, rfl⟩ := List.mem_map.mp hm
  exact h p hp

theorem ordered_clauseOf {p : Predicate} (hp : p.Ordered) (hcomp : Compiles p) :
    (clauseOf p).Ordered := by
  induction p with
  | basic column leaf operator value joined =>
    obtain ⟨c, hc⟩ := compiles_basic.mp hcomp
    cases hp with
    | basic hvalue =>
      rw [clauseOf_basic hc]
      exact ordered_of_clause hvalue hc
  | nested settings inner joined ih =>
    have hinner := compiles_nested.mp hcomp
    cases hp with
    | nested hmembers =>
      rw [clauseOf_nested hinner]
      exact ordered_document fun p hp => ih p hp (hmembers p hp) (hinner p hp)

variable {q : QueryState} {request : Request}

theorem ordered_of_query {d : Json} (hq : q.Ordered) (h : query q = .ok d) : d.Ordered := by
  obtain ⟨hcomp, rfl⟩ := query_eq_ok_iff.mp h
  exact ordered_document fun p hp => ordered_clauseOf (hq.predicates p hp) (hcomp p hp)

theorem ordered_of_parameterValue {a : Attribute} (hq : q.Ordered)
    (h : parameterValue q a = .ok value) : value.Ordered := by
  cases a with
  | wheres => exact ordered_of_query hq h
  | columns =>
    cases h
    exact ordered_texts q.columns
  | aggregations =>
    cases h
    exact Json.Fields.ordered_ofList hq.aggregations
  | orders =>
    cases h
    refine .array fun item hitem => ?_
    obtain ⟨sort, hsort, rfl⟩ := List.mem_map.mp hitem
    exact Json.ordered_single_iff.mpr (hq.sorts sort hsort)
  | limit =>
    cases h
    cases q.limit <;> simp [Json.ofCount?, Json.count]
  | offset =>
    cases h
    cases q.offset <;> simp [Json.ofCount?, Json.count]
  | index =>
    cases h
    cases q.index <;> simp [Json.ofText?]
  | documentType =>
    cases h
    cases q.documentType <;> simp [Json.ofText?]
  | scroll =>
    cases h
    cases q.scroll <;> simp [Json.ofText?]

theorem ordered_of_addParameters {attributes : List Attribute} {start : Request}
    (hq : q.Ordered) (hstart : start.Ordered)
    (h : addParameters q attributes start = .ok request) : request.Ordered := by
  induction attributes generalizing start with
  | nil =>
    cases h
    exact hstart
  | cons a attributes ih =>
    obtain ⟨value, hvalue, hrest⟩ := addParameters_cons_eq_ok_iff.mp h
    exact ih (hstart.insert (ordered_of_parameterValue hq hvalue)) hrest

theorem ordered_of_resolve (hq : q.Ordered) (h : resolve q = .ok request) : request.Ordered := by
  obtain ⟨hrequest, -⟩ := resolve_eq_ok_iff.mp h
  exact ordered_of_addParameters hq Request.ordered_empty hrequest

theorem ordered_targetOf (h : request.Ordered) : (targetOf request).Ordered := by
  have hvalue : ∀ name, ∀ value ∈ request.get? name, value.Ordered := fun _ _ hget =>
    Json.Ordered.get? h hget
  exact (Request.ordered_empty.insert? (hvalue _)).insert? (hvalue _)

theorem ordered_search (hq : q.Ordered) (h : search q = .ok request) : request.Ordered := by
  obtain ⟨resolved, hresolve, hrequest⟩ := bind_eq_ok_iff.mp h
  cases hrequest
  have hresolved := ordered_of_resolve hq hresolve
  exact (ordered_targetOf hresolved).insert hresolved.erase.erase

theorem ordered_flush (hq : q.Ordered) (h : flush q = .ok request) : request.Ordered := by
  obtain ⟨target, htarget, hrequest⟩ := bind_eq_ok_iff.mp h
  cases hrequest
  obtain ⟨resolved, hresolve, rfl⟩ := map_eq_ok_iff.mp htarget
  refine (ordered_targetOf (ordered_of_resolve hq hresolve)).insert ?_
  simp [matchAll, Json.Fields.Ascending]

end Compile

namespace CommandLine

theorem ordered_of_parseDescription {text : String} {description : Json}
    (h : parseDescription text = .ok description) : description.Ordered := by
  unfold parseDescription at h
  split at h
  · cases h
  · split at h
    · cases h
    · rename_i hread
      cases h
      exact Json.ordered_of_read? hread
    · cases h

theorem ordered_of_compileDescription {config : Config} {description : Json} {purpose : Purpose}
    {request : Request} (hdescription : description.Ordered)
    (h : compileDescription config description purpose = .ok request) : request.Ordered := by
  unfold compileDescription at h
  split at h
  · rename_i fields
    have hstate := (QueryState.Ordered.forIndex config.index).setFields
      (Json.ordered_object_iff.mp hdescription).2
    split at h
    · cases h
    · rename_i q hset
      rw [hset] at hstate
      have hrequest := mapError_eq_ok_iff.mp h
      cases purpose with
      | search => exact Compile.ordered_search hstate hrequest
      | flush => exact Compile.ordered_flush hstate hrequest
  · cases h

end CommandLine

end DocSearch
