import DocSearch.Proofs.Members
import DocSearch.Proofs.Pieces
import DocSearch.Proofs.Results

/-!
# Queries that do not compile

A query does not compile if one of its tests, at any depth, has no clause: a wildcard for a value
that is neither a text nor a number, or a range that no operator bounds and whose value is no
bounds object. The error is that of the first such test in the order in which they are declared,
whatever joins them.

* `clause_eq_error_iff`: when the clause of a test fails, and with which error.
* `errorOf?_members`: predicates fail with the first error among those of their tests.
* `query_eq_queryByGroups`: compiling one priority group after the other makes no difference.
* `first_fault_reported`: all of it, for a query state.
-/

namespace DocSearch.Compile

/-! ## Tests -/

/-- What a predicate asks of a column, apart from what joins it to others. -/
structure Test where
  column : String
  leaf : LeafKind
  operator : Option Operator
  value : Json

/-- A value that a wildcard looks for: a text or a number. -/
def IsNeedle (value : Json) : Prop := (∃ s, value = .text s) ∨ ∃ n, value = .number n

/-- A value that has the bounds of a range by itself. -/
def IsBounds (value : Json) : Prop := ∃ fields, value = .object fields

namespace Test

/-- Why a test has no clause. -/
def Faulty (t : Test) : ClauseFault → Prop
  | .needleless => t.leaf = .wildcard ∧ ¬ IsNeedle t.value
  | .boundless =>
    t.leaf = .range ∧ t.operator ∉ [some .gt, some .gte, some .lt, some .lte] ∧ ¬ IsBounds t.value
  | .other _ => False

def Inexpressible (t : Test) : Prop := ∃ fault, t.Faulty fault

theorem exists_faulty_iff {t : Test} {P : ClauseFault → Prop} :
    (∃ fault, t.Faulty fault ∧ P fault) ↔
      (t.leaf = .wildcard ∧ ¬ IsNeedle t.value) ∧ P .needleless ∨
        (t.leaf = .range ∧ t.operator ∉ [some .gt, some .gte, some .lt, some .lte] ∧
          ¬ IsBounds t.value) ∧ P .boundless := by
  constructor
  · rintro ⟨fault, h, hP⟩
    cases fault with
    | needleless => exact Or.inl ⟨h, hP⟩
    | boundless => exact Or.inr ⟨h, hP⟩
    | other _ => exact h.elim
  · rintro (⟨h, hP⟩ | ⟨h, hP⟩)
    · exact ⟨.needleless, h, hP⟩
    · exact ⟨.boundless, h, hP⟩

theorem inexpressible_iff {t : Test} :
    t.Inexpressible ↔
      (t.leaf = .wildcard ∧ ¬ IsNeedle t.value) ∨
        (t.leaf = .range ∧ t.operator ∉ [some .gt, some .gte, some .lt, some .lte] ∧
          ¬ IsBounds t.value) := by
  have h := t.exists_faulty_iff (P := fun _ => True)
  simp only [and_true] at h
  exact h

end Test

/-- A column as it is named in an error: with a dot for every `@`. -/
def dotted (column : String) : String :=
  String.ofList (column.toList.map fun c => if c = '@' then '.' else c)

mutual

/-- The tests of a predicate in the order of their declaration; those of a nested query come where
it stands. -/
def testsOf : Predicate → List Test
  | .basic column leaf operator value _ => [⟨column, leaf, operator, value⟩]
  | .nested _ inner _ => testsIn inner

def testsIn : List Predicate → List Test
  | [] => []
  | p :: ps => testsOf p ++ testsIn ps

end

/-! ## The clause of a test -/

section Clause

variable {leaf : LeafKind} {operator : Option Operator} {column : String} {value : Json}
  {e : CompileError}

theorem not_isBound_iff :
    operator.filter Operator.isBound = none ↔
      operator ∉ [some .gt, some .gte, some .lt, some .lte] := by
  cases operator with
  | none => simp
  | some operator => cases operator <;> simp [Operator.isBound]

theorem rangeBody_eq_error_iff :
    rangeBody column operator value = .error e ↔
      (operator ∉ [some .gt, some .gte, some .lt, some .lte] ∧ ¬ IsBounds value) ∧
        e = .invalidPredicate column .boundless := by
  rw [← not_isBound_iff, IsBounds]
  unfold rangeBody
  cases operator.filter Operator.isBound with
  | none => cases value <;> simp [eq_comm]
  | some bound => cases value with
    | object fields => rcases fields with _ | ⟨first, _ | ⟨second, rest⟩⟩ <;> simp
    | _ => simp

theorem plainClause_eq_error_iff :
    plainClause leaf column value operator = .error e ↔
      ∃ fault, Test.Faulty ⟨column, leaf, operator, value⟩ fault ∧
        e = .invalidPredicate column fault := by
  rw [Test.exists_faulty_iff]
  cases leaf with
  | range =>
    have hclause : plainClause .range column value operator = .error e ↔
        rangeBody column operator value = .error e := by
      rw [plainClause, ← errorOf?_eq_some_iff, errorOf?_bind_pure, errorOf?_eq_some_iff]
    rw [hclause, rangeBody_eq_error_iff]
    simp
  | wildcard => cases value <;> simp [plainClause, Json.nameText?, IsNeedle, eq_comm]
  | _ => simp [plainClause]

/-- The path that steps lead to, with a dot before each step. -/
def steppedPath (path : List Char) (steps : List (List Char)) : List Char :=
  steps.foldl (fun path step => path ++ '.' :: step) path

theorem errorOf?_pathClause (clause : String → Except CompileError Json) (path : List Char)
    (steps : List (List Char)) :
    errorOf? (pathClause clause path steps) =
      errorOf? (clause (String.ofList (steppedPath path steps))) := by
  induction steps generalizing path with
  | nil => rfl
  | cons step steps ih =>
    rw [pathClause, errorOf?_bind_pure, ih]
    rfl

/-- The pieces of a column make a path in which dots stand for the separators. -/
theorem steppedPath_cut (path cs : List Char) :
    steppedPath (path ++ (Text.cut pathMark cs).1) (Text.cut pathMark cs).2 =
      path ++ cs.map fun c => if c = '@' then '.' else c := by
  induction cs generalizing path with
  | nil => rfl
  | cons c cs ih =>
    by_cases h : c = pathMark
    · have hmark : c = '@' := h
      have hstep := ih (path ++ ['.'])
      simp only [List.append_assoc, List.singleton_append] at hstep
      rw [Text.cut_cons, if_pos h, List.map_cons, if_pos hmark, List.append_nil]
      exact hstep
    · have hmark : c ≠ '@' := h
      have hstep := ih (path ++ [c])
      simp only [List.append_assoc, List.singleton_append] at hstep
      rw [Text.cut_cons, if_neg h, List.map_cons, if_neg hmark]
      exact hstep

theorem clause_eq_error_iff :
    clause leaf column value operator = .error e ↔
      ∃ fault, Test.Faulty ⟨column, leaf, operator, value⟩ fault ∧
        e = .invalidPredicate (dotted column) fault := by
  have hpath : errorOf? (clause leaf column value operator) =
      errorOf? (plainClause leaf (dotted column) value operator) := by
    have hcut := steppedPath_cut [] column.toList
    rw [List.nil_append, List.nil_append] at hcut
    rw [clause, errorOf?_pathClause, hcut]
    rfl
  rw [← errorOf?_eq_some_iff, hpath, errorOf?_eq_some_iff, plainClause_eq_error_iff]
  rfl

end Clause

/-! ## The first fault -/

/-- The error of a test without a clause. -/
def Test.error? (t : Test) : Option CompileError :=
  errorOf? (clause t.leaf t.column t.value t.operator)

theorem Test.error?_eq_some_iff {t : Test} {e : CompileError} :
    t.error? = some e ↔ ∃ fault, t.Faulty fault ∧ e = .invalidPredicate (dotted t.column) fault :=
  errorOf?_eq_some_iff.trans clause_eq_error_iff

theorem Test.isSome_error?_iff {t : Test} : t.error?.isSome ↔ t.Inexpressible := by
  simp only [Option.isSome_iff_exists, Test.error?_eq_some_iff, Test.Inexpressible]
  constructor
  · rintro ⟨e, fault, hfault, -⟩
    exact ⟨fault, hfault⟩
  · rintro ⟨fault, hfault⟩
    exact ⟨_, fault, hfault, rfl⟩

theorem Test.error?_eq_none_iff {t : Test} : t.error? = none ↔ ¬ t.Inexpressible := by
  rw [← Test.isSome_error?_iff, Option.not_isSome_iff_eq_none]

theorem members_eq_mapM (ps : List Predicate) : members ps = ps.mapM member := by
  induction ps with
  | nil => rfl
  | cons p ps ih => rw [members, List.mapM_cons, ih]

theorem errorOf?_members_of_forall {ps : List Predicate}
    (h : ∀ p ∈ ps, errorOf? (member p) = (testsOf p).findSome? Test.error?) :
    errorOf? (members ps) = (testsIn ps).findSome? Test.error? := by
  induction ps with
  | nil => rfl
  | cons p ps ih =>
    obtain ⟨hp, hps⟩ := List.forall_mem_cons.mp h
    rw [members_eq_mapM, errorOf?_mapM] at ih ⊢
    rw [testsIn, List.findSome?_append, ← hp, ← ih hps, List.findSome?_cons]
    cases errorOf? (member p) <;> rfl

/-- A predicate fails with the first error among those of its tests. -/
theorem errorOf?_member (p : Predicate) :
    errorOf? (member p) = (testsOf p).findSome? Test.error? := by
  induction p with
  | basic column leaf operator value joined =>
    rw [member, errorOf?_bind_pure, testsOf, List.findSome?_singleton]
    rfl
  | nested settings inner joined ih =>
    rw [member, errorOf?_bind_pure, testsOf]
    exact errorOf?_members_of_forall ih

/-- Predicates fail with the first error among those of their tests. -/
theorem errorOf?_members (ps : List Predicate) :
    errorOf? (members ps) = (testsIn ps).findSome? Test.error? :=
  errorOf?_members_of_forall fun p _ => errorOf?_member p

theorem compiles_iff {p : Predicate} : Compiles p ↔ ∀ t ∈ testsOf p, ¬ t.Inexpressible := by
  simp only [Compiles, ← errorOf?_eq_none_iff, errorOf?_member, List.findSome?_eq_none_iff,
    Test.error?_eq_none_iff]

theorem errorOf?_query (q : QueryState) :
    errorOf? (query q) = (testsIn q.predicates).findSome? Test.error? := by
  rw [query, errorOf?_map, errorOf?_members]

theorem exists_query_error_iff {q : QueryState} :
    (∃ e, query q = .error e) ↔ ∃ t ∈ testsIn q.predicates, t.Inexpressible := by
  simp only [← errorOf?_eq_some_iff, ← Option.isSome_iff_exists, errorOf?_query,
    List.findSome?_isSome_iff, Test.isSome_error?_iff]

theorem query_eq_error_iff {q : QueryState} {e : CompileError} :
    query q = .error e ↔
      ∃ before t after fault, testsIn q.predicates = before ++ t :: after ∧
        (∀ earlier ∈ before, ¬ earlier.Inexpressible) ∧ t.Faulty fault ∧
        e = .invalidPredicate (dotted t.column) fault := by
  rw [← errorOf?_eq_some_iff, errorOf?_query, List.findSome?_eq_some_iff]
  simp only [Test.error?_eq_some_iff, Test.error?_eq_none_iff]
  constructor
  · rintro ⟨before, t, after, htests, ⟨fault, hfault, he⟩, hbefore⟩
    exact ⟨before, t, after, fault, htests, hbefore, hfault, he⟩
  · rintro ⟨before, t, after, fault, htests, hbefore, hfault, he⟩
    exact ⟨before, t, after, htests, ⟨fault, hfault, he⟩, hbefore⟩

/-! ## Group by group -/

/-- The query document of predicates that are compiled one priority group after the other. -/
def queryByGroups (ps : List Predicate) : Except CompileError Json :=
  if ps.isEmpty then .ok matchAll else ((groups ps).mapM members).map boolQuery

theorem mapM_members_of_compiles {gs : List (List Predicate)}
    (h : ∀ group ∈ gs, ∀ p ∈ group, Compiles p) :
    gs.mapM members = .ok (gs.map (List.map memberOf)) := by
  induction gs with
  | nil => rfl
  | cons group gs ih =>
    obtain ⟨hgroup, hgs⟩ := List.forall_mem_cons.mp h
    rw [List.mapM_cons, members_eq_ok_iff.mpr ⟨hgroup, rfl⟩, ih hgs]
    rfl

theorem findSome?_flatten {α β : Type} (f : α → Option β) (ls : List (List α)) :
    ls.flatten.findSome? f = ls.findSome? fun l => l.findSome? f := by
  induction ls with
  | nil => rfl
  | cons l ls ih =>
    rw [List.flatten_cons, List.findSome?_append, ih, List.findSome?_cons]
    cases l.findSome? f <;> rfl

/-- The groups in their order are the list, so the first error in a group is that of the list. -/
theorem errorOf?_mapM_members (ps : List Predicate) :
    errorOf? ((groups ps).mapM members) = errorOf? (members ps) := by
  have hflat : (groups ps).flatten = ps := flatten_priorityGroups Predicate.isOr ps
  simp only [errorOf?_mapM, members_eq_mapM, ← findSome?_flatten, hflat]

theorem query_eq_queryByGroups (q : QueryState) : query q = queryByGroups q.predicates := by
  rw [query, queryByGroups]
  by_cases hnil : q.predicates = []
  · rw [hnil]
    rfl
  · rw [if_neg (by simpa using hnil)]
    cases hmembers : members q.predicates with
    | error e =>
      have herror := errorOf?_mapM_members q.predicates
      rw [hmembers] at herror
      rw [errorOf?_eq_some_iff.mp herror]
      rfl
    | ok ms =>
      obtain ⟨hps, rfl⟩ := members_eq_ok_iff.mp hmembers
      have hgroups : ∀ group ∈ groups q.predicates, ∀ p ∈ group, Compiles p :=
        fun group hgroup p hp => hps p (mem_of_mem_priorityGroups hgroup hp)
      rw [mapM_members_of_compiles hgroups]
      exact congrArg Except.ok (document_eq_boolQuery hnil)

/-- **The first fault.** A query fails exactly if one of its tests, at any depth, is a wildcard for
a value that is neither a text nor a number, or a range without a bounding operator whose value is
no bounds object. The error names the column of the first such test in the order of declaration,
with dots for its path marks. What joins the tests has no part in it, and the query is the same when
it is compiled group by group. -/
theorem first_fault_reported (q : QueryState) :
    ((∃ e, query q = .error e) ↔ ∃ t ∈ testsIn q.predicates, t.Inexpressible) ∧
      (∀ e, query q = .error e ↔
        ∃ before t after fault, testsIn q.predicates = before ++ t :: after ∧
          (∀ earlier ∈ before, ¬ earlier.Inexpressible) ∧ t.Faulty fault ∧
          e = .invalidPredicate (dotted t.column) fault) ∧
      query q = queryByGroups q.predicates :=
  ⟨exists_query_error_iff, fun _ => query_eq_error_iff, query_eq_queryByGroups q⟩

example :
    query { predicates :=
      [.nested {} [.basic "orders@paid@at" .range none .null .or] .and,
        .basic "name" .wildcard none .null .or] } =
      .error (.invalidPredicate "orders.paid.at" .boundless) := rfl

end DocSearch.Compile
