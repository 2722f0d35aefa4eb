import DocSearch.Proofs.Document
import DocSearch.Proofs.Groups
import Mathlib.Algebra.Order.BigOperators.Group.List

/-!
# What predicates compile to

`member` and `members` compile predicates one after the other and stop at the first that does
not compile. Where nothing stops them they are a map: `clauseOf` is the clause of a predicate
that compiles, and `document` the query document of a list of such predicates.

* `query_eq_ok_iff`: a query state has a document exactly if all of its predicates compile,
  and it is `document` of them.
* `compiles_basic`, `compiles_nested`, `clauseOf_basic`, `clauseOf_nested`: one equation for
  each kind of predicate.
* `isLeaf_of_clause`: the clause of a test is a leaf clause.
* `boolClauses?_of_one_group`, `boolClauses?_of_groups`: the clauses of the document of one
  and of several groups.
-/

namespace DocSearch

/-- Induction on predicates: a nested query may assume the statement for each of its members.
-/
@[elab_as_elim, induction_eliminator]
theorem Predicate.induction {motive : Predicate → Prop}
    (basic : ∀ column leaf operator value joined,
      motive (.basic column leaf operator value joined))
    (nested : ∀ settings inner joined, (∀ p ∈ inner, motive p) →
      motive (.nested settings inner joined)) :
    ∀ p, motive p
  | .basic column leaf operator value joined => basic column leaf operator value joined
  | .nested settings inner joined =>
    nested settings inner joined fun p _ => Predicate.induction basic nested p
termination_by p => sizeOf p
decreasing_by
  have := List.sizeOf_lt_of_mem ‹p ∈ inner›
  simp only [Predicate.nested.sizeOf_spec]
  omega

namespace Compile

/-! ## The clause of a test -/

theorem isLeaf_of_plainClause {leaf : LeafKind} {column : String} {value : Json}
    {operator : Option Operator} {c : Json} (h : plainClause leaf column value operator = .ok c) :
    IsLeaf c := by
  unfold plainClause at h
  split at h
  case h_5 =>
    cases hbody : rangeBody column operator value with
    | error e =>
      rw [hbody] at h
      cases h
    | ok body =>
      rw [hbody] at h
      cases h
      exact ⟨_, _, rfl, by decide, by decide⟩
  case h_7 =>
    split at h
    · cases h
      exact ⟨_, _, rfl, by decide, by decide⟩
    · cases h
  all_goals
    cases h
    exact ⟨_, _, rfl, by decide, by decide⟩

/-- A clause is a leaf clause: its key is the name of its kind, or that of an envelope. -/
theorem isLeaf_of_clause {leaf : LeafKind} {column : String} {value : Json}
    {operator : Option Operator} {c : Json} (h : clause leaf column value operator = .ok c) :
    IsLeaf c := by
  unfold clause at h
  generalize Text.cut pathMark column.toList = cut at h
  obtain ⟨path, steps⟩ := cut
  cases steps with
  | nil => exact isLeaf_of_plainClause h
  | cons step steps =>
    -- the first step puts an envelope around whatever the others make
    simp only [pathClause] at h
    cases hrest : pathClause (plainClause leaf · value operator) (path ++ '.' :: step) steps with
    | error e =>
      rw [hrest] at h
      cases h
    | ok inner =>
      rw [hrest] at h
      cases h
      exact ⟨_, _, rfl, by decide, by decide⟩

/-! ## Compiling as a map -/

def Compiles (p : Predicate) : Prop := ∃ m, member p = .ok m

/-- The clause that a predicate compiles to. -/
def clauseOf (p : Predicate) : Json :=
  match member p with
  | .ok m => m.clause
  | .error _ => .null

/-- The member that a predicate compiles to. -/
def memberOf (p : Predicate) : Member := ⟨p.isOr, p.isNegated, clauseOf p⟩

/-- The query document of predicates that compile. -/
def document (ps : List Predicate) : Json := queryOf (ps.map memberOf)

/-- The priority groups of predicates. -/
def groups (ps : List Predicate) : List (List Predicate) := priorityGroups Predicate.isOr ps

theorem members_cons_eq_ok_iff {p : Predicate} {ps : List Predicate} {ms : List Member} :
    members (p :: ps) = .ok ms ↔
      ∃ m rest, member p = .ok m ∧ members ps = .ok rest ∧ ms = m :: rest := by
  simp only [members]
  cases member p with
  | error e => simp [bind, Except.bind]
  | ok m =>
    cases members ps with
    | error e => simp [bind, Except.bind]
    | ok rest => simp [bind, Except.bind, pure, Except.pure, eq_comm]

theorem eq_memberOf {p : Predicate} {m : Member} (h : member p = .ok m) : m = memberOf p := by
  have hclause : clauseOf p = m.clause := by rw [clauseOf, h]
  rw [memberOf, hclause]
  cases p with
  | basic column leaf operator value joined =>
    simp only [member] at h
    cases hc : clause leaf column value operator with
    | error e =>
      rw [hc] at h
      cases h
    | ok c =>
      rw [hc] at h
      cases h
      rfl
  | nested settings inner joined =>
    simp only [member] at h
    cases hms : members inner with
    | error e =>
      rw [hms] at h
      cases h
    | ok ms =>
      rw [hms] at h
      cases h
      rfl

theorem member_eq_ok_iff {p : Predicate} {m : Member} :
    member p = .ok m ↔ Compiles p ∧ m = memberOf p := by
  constructor
  · intro h
    exact ⟨⟨m, h⟩, eq_memberOf h⟩
  · rintro ⟨⟨m', h⟩, rfl⟩
    rw [h, eq_memberOf h]

theorem members_eq_ok_iff {ps : List Predicate} {ms : List Member} :
    members ps = .ok ms ↔ (∀ p ∈ ps, Compiles p) ∧ ms = ps.map memberOf := by
  induction ps generalizing ms with
  | nil => simp [members, eq_comm]
  | cons p ps ih =>
    rw [members_cons_eq_ok_iff, List.forall_mem_cons, List.map_cons]
    constructor
    · rintro ⟨m, rest, hm, hrest, rfl⟩
      obtain ⟨hp, rfl⟩ := member_eq_ok_iff.mp hm
      obtain ⟨hps, rfl⟩ := ih.mp hrest
      exact ⟨⟨hp, hps⟩, rfl⟩
    · rintro ⟨⟨hp, hps⟩, rfl⟩
      exact ⟨_, _, member_eq_ok_iff.mpr ⟨hp, rfl⟩, ih.mpr ⟨hps, rfl⟩, rfl⟩

theorem query_eq_ok_iff {q : QueryState} {d : Json} :
    query q = .ok d ↔ (∀ p ∈ q.predicates, Compiles p) ∧ d = document q.predicates := by
  unfold query
  cases hms : members q.predicates with
  | error e =>
    refine iff_of_false (by simp [Except.map]) ?_
    rintro ⟨hps, -⟩
    cases hms.symm.trans (members_eq_ok_iff.mpr ⟨hps, rfl⟩)
  | ok ms =>
    obtain ⟨hps, rfl⟩ := members_eq_ok_iff.mp hms
    rw [and_iff_right hps]
    simp [Except.map, document, eq_comm]

/-! ## The kinds of predicates -/

section Kinds

variable {column : String} {leaf : LeafKind} {operator : Option Operator} {value : Json}
  {joined : Conjunction} {settings : Settings} {inner : List Predicate}

theorem compiles_basic :
    Compiles (.basic column leaf operator value joined) ↔
      ∃ c, clause leaf column value operator = .ok c := by
  simp only [Compiles, member]
  cases clause leaf column value operator with
  | error e => simp [bind, Except.bind]
  | ok c => simp [bind, Except.bind, pure, Except.pure]

theorem clauseOf_basic {c : Json} (h : clause leaf column value operator = .ok c) :
    clauseOf (.basic column leaf operator value joined) = c := by
  simp [clauseOf, member, h, bind, Except.bind, pure, Except.pure]

theorem compiles_nested :
    Compiles (.nested settings inner joined) ↔ ∀ p ∈ inner, Compiles p := by
  simp only [Compiles, member]
  constructor
  · rintro ⟨m, hm⟩
    cases hms : members inner with
    | error e =>
      rw [hms] at hm
      cases hm
    | ok ms => exact (members_eq_ok_iff.mp hms).1
  · intro h
    rw [members_eq_ok_iff.mpr ⟨h, rfl⟩]
    exact ⟨_, rfl⟩

theorem clauseOf_nested (h : ∀ p ∈ inner, Compiles p) :
    clauseOf (.nested settings inner joined) = document inner := by
  simp [clauseOf, member, members_eq_ok_iff.mpr ⟨h, rfl⟩, bind, Except.bind, pure, Except.pure,
    document]

end Kinds

/-- Only a test is negated, so a negated predicate compiles to a leaf clause. -/
theorem isLeaf_clauseOf {p : Predicate} (h : Compiles p) (hneg : p.isNegated = true) :
    IsLeaf (clauseOf p) := by
  cases p with
  | basic column leaf operator value joined =>
    obtain ⟨c, hc⟩ := compiles_basic.mp h
    rw [clauseOf_basic hc]
    exact isLeaf_of_clause hc
  | nested settings inner joined => cases hneg

/-- `ListWithin ps qs`: the list `qs` is `ps` or the list of a nested query in it, at any
depth. -/
inductive ListWithin (ps : List Predicate) : List Predicate → Prop
  | self : ListWithin ps ps
  | nested {qs : List Predicate} {settings : Settings} {inner : List Predicate}
      {joined : Conjunction} (hqs : ListWithin ps qs) (hp : .nested settings inner joined ∈ qs) :
      ListWithin ps inner

theorem ListWithin.trans {ps qs rs : List Predicate} (h : ListWithin ps qs)
    (h' : ListWithin qs rs) : ListWithin ps rs := by
  induction h' with
  | self => exact h
  | nested _ hp ih => exact ih.nested hp

/-- What is in the list of a nested query is in the list that the query is a member of. -/
theorem ListWithin.of_mem {ps qs inner : List Predicate} {settings : Settings}
    {joined : Conjunction} (hp : .nested settings inner joined ∈ ps) (h : ListWithin inner qs) :
    ListWithin ps qs :=
  (ListWithin.self.nested hp).trans h

theorem ListWithin.eq_of_tests {ps qs : List Predicate} (h : ListWithin ps qs)
    (hps : ∀ p ∈ ps, p.isNested = false) : qs = ps := by
  induction h with
  | self => rfl
  | nested _ hp ih =>
    rw [ih] at hp
    cases hps _ hp

/-! ## The document of a list -/

/-- The clauses of the predicates that have to hold. -/
def heldClauses (ps : List Predicate) : List Json := (ps.filter (!·.isNegated)).map clauseOf

/-- The clauses of the predicates that are negated. -/
def deniedClauses (ps : List Predicate) : List Json := (ps.filter (·.isNegated)).map clauseOf

/-- Clauses as at most one clause that holds where all of them do. -/
def joinedClauses (clauses : List Json) : List Json :=
  match clauses with
  | [] => []
  | [clause] => [clause]
  | clauses => [allOf clauses]

/-- The clauses that a group among several adds to the query. -/
def branchClauses (group : List Predicate) : List Json :=
  joinedClauses (heldClauses group) ++ (deniedClauses group).map noneOf

theorem positives_map_memberOf (ps : List Predicate) :
    positives (ps.map memberOf) = heldClauses ps := by
  simp [positives, heldClauses, List.filter_map, Function.comp_def, memberOf]

theorem negatives_map_memberOf (ps : List Predicate) :
    negatives (ps.map memberOf) = deniedClauses ps := by
  simp [negatives, deniedClauses, List.filter_map, Function.comp_def, memberOf]

theorem joinedPositives_map_memberOf (ps : List Predicate) :
    joinedPositives (ps.map memberOf) = joinedClauses (heldClauses ps) := by
  rw [← positives_map_memberOf]
  rfl

@[simp]
theorem document_nil : document [] = matchAll := rfl

theorem groups_cases (ps : List Predicate) :
    ps = [] ∨ groups ps = [ps] ∨ 1 < (groups ps).length := by
  cases hg : groups ps with
  | nil => exact Or.inl (priorityGroups_eq_nil.mp hg)
  | cons group rest =>
    cases rest with
    | nil =>
      obtain rfl := eq_of_priorityGroups_eq_singleton hg
      exact Or.inr (Or.inl rfl)
    | cons group' rest => exact Or.inr (Or.inr (by simp))

theorem ne_nil_of_one_group {ps : List Predicate} (h : groups ps = [ps]) : ps ≠ [] := by
  rintro rfl
  cases h

theorem ne_nil_of_groups {ps : List Predicate} (h : 1 < (groups ps).length) : ps ≠ [] := by
  rintro rfl
  cases h

theorem mem_groups_of_one_group {ps : List Predicate} (h : groups ps = [ps]) : ps ∈ groups ps := by
  rw [h]
  exact List.mem_singleton_self ps

theorem document_eq_boolQuery {ps : List Predicate} (h : ps ≠ []) :
    document ps = boolQuery ((groups ps).map (List.map memberOf)) := by
  rw [document, queryOf, if_neg (by simpa using h), priorityGroups_map]
  rfl

theorem document_of_one_group {ps : List Predicate} (h : groups ps = [ps]) :
    document ps = .single "bool" (.object
      (part "must" (joinedClauses (heldClauses ps)) ++ part "must_not" (deniedClauses ps))) := by
  rw [document_eq_boolQuery (ne_nil_of_one_group h), h, List.map_singleton,
    ← joinedPositives_map_memberOf, ← negatives_map_memberOf]
  simp [boolQuery, Combinator.ofCount]

theorem document_of_groups {ps : List Predicate} (h : 1 < (groups ps).length) :
    document ps =
      .single "bool" (.object (part "should" ((groups ps).flatMap branchClauses))) := by
  have hbranch : (groups ps).flatMap branchClauses =
      ((groups ps).map (List.map memberOf)).flatMap
        fun group => joinedPositives group ++ (negatives group).map noneOf := by
    simp only [List.flatMap_map, joinedPositives_map_memberOf, negatives_map_memberOf]
    rfl
  rw [document_eq_boolQuery (ne_nil_of_groups h), hbranch, boolQuery, Combinator.ofCount,
    List.length_map, if_neg (Nat.not_le.mpr h)]

/-- Every predicate has its clause among those that have to hold or among those that are
negated. -/
theorem eq_nil_of_clauses {ps : List Predicate} (hheld : heldClauses ps = [])
    (hdenied : deniedClauses ps = []) : ps = [] := by
  simp only [heldClauses, deniedClauses, List.map_eq_nil_iff, List.filter_eq_nil_iff]
    at hheld hdenied
  refine List.eq_nil_iff_forall_not_mem.mpr fun p hp => ?_
  have hpos := hheld p hp
  have hneg := hdenied p hp
  simp_all

theorem joinedClauses_eq_nil_iff {clauses : List Json} :
    joinedClauses clauses = [] ↔ clauses = [] := by
  unfold joinedClauses
  split <;> simp_all

/-- No group is empty, so each of several groups adds a clause. -/
theorem branchClauses_ne_nil {ps group : List Predicate} (h : group ∈ groups ps) :
    branchClauses group ≠ [] := by
  intro hnil
  obtain ⟨hheld, hdenied⟩ := List.append_eq_nil_iff.mp hnil
  refine ne_nil_of_mem_priorityGroups h (eq_nil_of_clauses ?_ ?_)
  · exact joinedClauses_eq_nil_iff.mp hheld
  · exact List.map_eq_nil_iff.mp hdenied

theorem length_groups_le (ps : List Predicate) :
    (groups ps).length ≤ ((groups ps).flatMap branchClauses).length := by
  have hlength : ∀ n ∈ (groups ps).map (fun group => (branchClauses group).length), 1 ≤ n := by
    intro n hn
    obtain ⟨group, hg, rfl⟩ := List.mem_map.mp hn
    exact List.length_pos_iff.mpr (branchClauses_ne_nil hg)
  have hsum := List.length_le_sum_of_one_le _ hlength
  rwa [List.length_map, ← List.length_flatMap] at hsum

/-! ## Reading the document of a list -/

theorem boolParts?_of_one_group {ps : List Predicate} (h : groups ps = [ps]) :
    boolParts? (document ps) =
      some (part "must" (joinedClauses (heldClauses ps)) ++
        part "must_not" (deniedClauses ps)) := by
  rw [document_of_one_group h, boolParts?_single]

theorem boolClauses?_of_one_group {ps : List Predicate} (h : groups ps = [ps]) :
    boolClauses? (document ps) =
      some ⟨joinedClauses (heldClauses ps), deniedClauses ps, none⟩ := by
  rw [document_of_one_group h, boolClauses?_conjunction]

theorem boolParts?_of_groups {ps : List Predicate} (h : 1 < (groups ps).length) :
    boolParts? (document ps) = some [("should", .array ((groups ps).flatMap branchClauses))] := by
  -- a `should` without clauses would be left out
  have hpos : (groups ps).flatMap branchClauses ≠ [] :=
    List.length_pos_iff.mp (Nat.lt_of_lt_of_le (by omega) (length_groups_le ps))
  rw [document_of_groups h, boolParts?_single, part, if_neg (by simpa using hpos)]

theorem boolClauses?_of_groups {ps : List Predicate} (h : 1 < (groups ps).length) :
    boolClauses? (document ps) = some ⟨[], [], some ((groups ps).flatMap branchClauses)⟩ := by
  rw [boolClauses?, boolParts?_of_groups h]
  rfl

/-! ## A query of two groups -/

/-- Admins, and editors who are not banned. -/
def adminsOrEditors : QueryState :=
  { predicates :=
      [.basic "role" .term (some .eq) (.text "admin") .and,
        .basic "role" .term (some .eq) (.text "editor") .or,
        .basic "status" .term (some .ne) (.text "banned") .and] }

def termClause (column value : String) : Json := .single "term" (.single column (.text value))

def adminsOrEditorsDocument : Json :=
  .single "bool" (.single "should" (.array
    [termClause "role" "admin", termClause "role" "editor", noneOf (termClause "status" "banned")]))

/-- `adminsOrEditors` as a nested query, beside a negated test. -/
def staff : QueryState :=
  { predicates :=
      [.nested {} adminsOrEditors.predicates .and, .basic "left" .exists (some .ne) .null .and] }

def staffDocument : Json := .single "bool" (.object
  [("must", .array [adminsOrEditorsDocument]),
    ("must_not", .array [.single "exists" (.single "field" (.text "left"))])])

end Compile

end DocSearch
