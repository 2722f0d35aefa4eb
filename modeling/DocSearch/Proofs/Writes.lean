import DocSearch.Proofs.Requests

/-!
# Requests that write

A write takes its target from a query state and nothing else, but all of the state has to
compile first.

* `Compile.resolve_of_query_error`, `Compile.resolve_of_no_index`: the predicates are compiled
  before an index is asked for, and their error is the one that is reported.
* `Compile.target_eq`: the target of a state whose predicates compile, from the index and the
  document type alone.
* `Compile.writes_take_target_only`: both, for each of the four requests that write.
-/

namespace DocSearch.Compile

variable {q r : QueryState} {attributes : List Attribute} {start request : Request}
  {e : CompileError}

/-! ## Why a state does not resolve -/

theorem isSet_wheres_of_query_error (h : query q = .error e) : q.isSet .wheres = true := by
  by_contra hset
  have hnil : q.predicates = [] := by simpa [QueryState.isSet] using hset
  rw [query_of_no_predicates hnil] at h
  cases h

theorem addParameters_of_query_error (h : query q = .error e) (hmem : .wheres ∈ attributes) :
    addParameters q attributes start = .error e := by
  induction attributes generalizing start with
  | nil => cases hmem
  | cons a rest ih =>
    by_cases ha : a = .wheres
    · subst ha
      have hvalue : parameterValue q .wheres = .error e := h
      rw [addParameters, hvalue]
      rfl
    · -- any other attribute has a value, and the predicates are still to come
      obtain ⟨value, hvalue⟩ := exists_parameterValue_iff.mpr fun hwheres => absurd hwheres ha
      have hrest : .wheres ∈ rest := (List.mem_cons.mp hmem).resolve_left (Ne.symm ha)
      rw [addParameters, hvalue]
      exact ih hrest

theorem resolve_of_query_error (h : query q = .error e) : resolve q = .error e := by
  have hmem : .wheres ∈ Attribute.all.filter q.isSet :=
    mem_setAttributes.mpr (isSet_wheres_of_query_error h)
  rw [resolve, addParameters_of_query_error h hmem]
  rfl

theorem resolve_of_no_index (hquery : ∃ d, query q = .ok d) (hindex : q.isSet .index = false) :
    resolve q = .error .missingIndex := by
  obtain ⟨d, hd⟩ := hquery
  have hvalues : ∀ a ∈ Attribute.all.filter q.isSet, ∃ value, parameterValue q a = .ok value := by
    intro a _
    apply exists_parameterValue_iff.mpr
    intro _
    exact ⟨d, hd⟩
  obtain ⟨found, hfound⟩ : ∃ found, addParameters q (Attribute.all.filter q.isSet) {} = .ok found :=
    exists_addParameters_iff.mpr hvalues
  have hcontains : ¬ found.contains "index" = true := by
    rw [contains_index_iff hfound, hindex]
    exact Bool.false_ne_true
  rw [resolve, hfound]
  exact if_neg hcontains

/-! ## The target -/

/-- The target of a state that names it. -/
def namedTarget (q : QueryState) : Except CompileError Request :=
  match q.index.filter (· ≠ "") with
  | none => .error .missingIndex
  | some index => .ok (.assembled none none index (q.documentType.filter (· ≠ "")))

theorem namedTarget_congr (hindex : q.index = r.index)
    (htype : q.documentType = r.documentType) : namedTarget q = namedTarget r := by
  rw [namedTarget, namedTarget, hindex, htype]

theorem target_eq (h : ∃ d, query q = .ok d) : target q = namedTarget q := by
  rw [namedTarget]
  cases hindex : q.index.filter (· ≠ "") with
  | none =>
    have hunset : q.isSet .index = false := by
      apply Bool.eq_false_iff.mpr
      intro hset
      obtain ⟨index, documentType, hnames⟩ := QueryState.isSet_index_iff.mp hset
      have hempty := Option.filter_eq_none_iff.mp hindex index hnames.index_eq
      exact hempty (decide_eq_true hnames.index_ne)
    rw [target, resolve_of_no_index h hunset]
    rfl
  | some index =>
    obtain ⟨hsome, hne⟩ := Option.filter_eq_some_iff.mp hindex
    have hnames : q.Names index (q.documentType.filter (· ≠ "")) :=
      ⟨hsome, by simpa using hne, rfl⟩
    exact target_eq_ok_iff.mpr ⟨h, index, _, hnames, rfl⟩

theorem target_of_query_error (h : query q = .error e) : target q = .error e := by
  rw [target, resolve_of_query_error h]
  rfl

/-! ## The writes -/

/-- The requests that write, with the id and the document that they are given. A document may be
created without an id. -/
def writes (createId : Option String) (id : String) (document : Json) :
    List (QueryState → Except CompileError Request) :=
  [(create · createId document), (update · id document), (delete · id), flush]

/-- Every write makes its request from the target. -/
theorem exists_change_of_mem_writes {createId : Option String} {id : String} {document : Json}
    {write : QueryState → Except CompileError Request} (h : write ∈ writes createId id document) :
    ∃ change : Request → Request, ∀ q, write q = target q >>= fun found => .ok (change found) := by
  simp only [writes, List.mem_cons, List.not_mem_nil, or_false] at h
  rcases h with rfl | rfl | rfl | rfl
  all_goals exact ⟨_, fun _ => rfl⟩

/-- **Writes take nothing of a search.** Two states that name the same index and document type,
and whose predicates compile, make the same requests, whatever else is declared on them. A state
whose predicates do not compile makes none, and the error is that of its predicates, whether an
index is named or not. -/
theorem writes_take_target_only (createId : Option String) (id : String) (document : Json) :
    ∀ write ∈ writes createId id document,
      (∀ q r : QueryState, q.index = r.index → q.documentType = r.documentType →
        (∃ d, query q = .ok d) → (∃ d, query r = .ok d) → write q = write r) ∧
      ∀ (q : QueryState) e, query q = .error e → write q = .error e := by
  intro write hwrite
  obtain ⟨change, hchange⟩ := exists_change_of_mem_writes hwrite
  constructor
  · intro q r hindex htype hq hr
    have htarget : target q = target r := by
      rw [target_eq hq, target_eq hr, namedTarget_congr hindex htype]
    rw [hchange, hchange, htarget]
  · intro q e he
    rw [hchange, target_of_query_error he]
    rfl

/-- A bare deletion of all documents, one from a state full of a search, and one from a state
without an index whose predicate does not compile. -/
theorem writes_take_target_only_flush :
    let bare : QueryState := .forIndex "users"
    let searching : QueryState :=
      { index := some "users", limit := some 5, columns := ["name"],
        predicates := [.basic "left" .exists (some .ne) .null .or] }
    let broken : QueryState := { predicates := [.basic "age" .range none .null .and] }
    flush ∈ writes none "7" .null ∧
      (∃ d, query bare = .ok d) ∧ (∃ d, query searching = .ok d) ∧
      flush bare = flush searching ∧
      query broken = .error (.invalidPredicate "age" .boundless) ∧
      flush broken = .error (.invalidPredicate "age" .boundless) := by
  intro bare searching broken
  have hflush : flush ∈ writes none "7" .null := by simp [writes]
  have hbare : ∃ d, query bare = .ok d := ⟨_, rfl⟩
  have hsearching : ∃ d, query searching = .ok d := ⟨_, rfl⟩
  have hbroken : query broken = .error (.invalidPredicate "age" .boundless) := rfl
  obtain ⟨hsame, herror⟩ := writes_take_target_only none "7" .null flush hflush
  exact ⟨hflush, hbare, hsearching, hsame bare searching rfl rfl hbare hsearching, hbroken,
    herror broken _ hbroken⟩

end DocSearch.Compile
