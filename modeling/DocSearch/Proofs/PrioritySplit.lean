import DocSearch.Proofs.Faults
import Mathlib.Logic.Relation

/-!
# The priority split of a query

Precedence splits a list of predicates into groups in one way only. What joins the first predicate
of a list has nothing before it to be joined to: it moves no group, and the query is the same
whatever it is, in the list and in the lists of nested queries.

* `queryOf_joinedBy`: what joins the first member has no part in the query document of members.
* `members_of_retagged`: nor has what joins the first predicate of a list, at any depth.
* `priority_split_unique`: the split and both.
-/

namespace DocSearch

/-- The same predicate, joined to the ones before it in another way. -/
def Predicate.joinedBy (joined : Conjunction) : Predicate → Predicate
  | .basic column leaf operator value _ => .basic column leaf operator value joined
  | .nested settings members _ => .nested settings members joined

namespace Compile

/-- `Retagged ps ps'`: the lists differ in what joins the first predicate of one list, `ps` itself or
the list of a nested query in it, at any depth. -/
inductive Retagged : List Predicate → List Predicate → Prop
  | first (p : Predicate) (rest : List Predicate) (joined : Conjunction) :
      Retagged (p :: rest) (p.joinedBy joined :: rest)
  | inside (front back : List Predicate) (settings : Settings) (joined : Conjunction)
      {inner inner' : List Predicate} (h : Retagged inner inner') :
      Retagged (front ++ .nested settings inner joined :: back)
        (front ++ .nested settings inner' joined :: back)

/-! ## The first member -/

section Members

variable {m : Member} {group : List Member} {groups : List (List Member)}

/-- The same member, joined to the ones before it in another way. -/
def Member.joinedBy (joined : Conjunction) (m : Member) : Member := { m with isOr := joined = .or }

theorem positives_joinedBy (joined : Conjunction) :
    positives (m.joinedBy joined :: group) = positives (m :: group) := by
  cases h : m.isNegated <;> simp [positives, Member.joinedBy, h]

theorem negatives_joinedBy (joined : Conjunction) :
    negatives (m.joinedBy joined :: group) = negatives (m :: group) := by
  cases h : m.isNegated <;> simp [negatives, Member.joinedBy, h]

theorem joinedPositives_joinedBy (joined : Conjunction) :
    joinedPositives (m.joinedBy joined :: group) = joinedPositives (m :: group) := by
  rw [joinedPositives, positives_joinedBy]
  rfl

theorem boolQuery_joinedBy (joined : Conjunction) :
    boolQuery ((m.joinedBy joined :: group) :: groups) = boolQuery ((m :: group) :: groups) := by
  simp only [boolQuery, List.length_cons, List.flatMap_cons, joinedPositives_joinedBy,
    negatives_joinedBy]

theorem queryOf_joinedBy (joined : Conjunction) (ms : List Member) :
    queryOf (m.joinedBy joined :: ms) = queryOf (m :: ms) := by
  obtain ⟨group, groups, hgroups⟩ := exists_priorityGroups_cons Member.isOr ms
  simp only [queryOf, List.isEmpty_cons, Bool.false_eq_true, if_false, hgroups, boolQuery_joinedBy]

end Members

/-! ## The first predicate -/

theorem member_joinedBy (p : Predicate) (joined : Conjunction) :
    member (p.joinedBy joined) = (member p).map (Member.joinedBy joined) := by
  cases p with
  | basic column leaf operator value other =>
    simp only [Predicate.joinedBy, member]
    cases clause leaf column value operator <;> rfl
  | nested settings inner other =>
    simp only [Predicate.joinedBy, member]
    cases members inner <;> rfl

theorem member_nested (settings : Settings) (inner : List Predicate) (joined : Conjunction) :
    member (.nested settings inner joined) =
      ((members inner).map queryOf).map fun d => ⟨joined = .or, false, d⟩ := by
  rw [member]
  cases members inner <;> rfl

/-- What joins the first predicate of a list, at any depth, has no part in the query. -/
theorem members_of_retagged {ps ps' : List Predicate} (h : Retagged ps ps') :
    (members ps').map queryOf = (members ps).map queryOf := by
  induction h with
  | first p rest joined =>
    rw [members, members, member_joinedBy]
    cases member p with
    | error e => rfl
    | ok m =>
      cases members rest with
      | error e => rfl
      | ok ms => exact congrArg Except.ok (queryOf_joinedBy joined ms)
  | inside front back settings joined h ih =>
    -- the nested query is one member, with the same clause by the induction hypothesis
    rw [members_eq_mapM, members_eq_mapM, List.mapM_append, List.mapM_append, List.mapM_cons,
      List.mapM_cons, member_nested, member_nested, ih]

theorem query_of_retagged {q q' : QueryState}
    (h : Relation.ReflTransGen Retagged q.predicates q'.predicates) : query q' = query q := by
  obtain ⟨settings, ps⟩ := q
  obtain ⟨settings', ps'⟩ := q'
  simp only at h
  rw [query, query]
  induction h with
  | refl => rfl
  | tail _ hlast ih => exact (members_of_retagged hlast).trans ih

/-- **The priority split.** The priority groups of predicates are the one split of their list into
groups that are not empty, of which each but the first begins with a predicate joined by OR, and no
other predicate is joined so. There is none for no predicates, and else one more than predicates
after the first that are joined by OR. What joins the first predicate does not move the groups; and
whatever joins the first predicates of the list and of the lists of nested queries in it, at any
depth, the query is the same, or fails with the same error. -/
theorem priority_split_unique (ps : List Predicate) :
    (∀ groups, priorityGroups Predicate.isOr ps = groups ↔
      IsPrioritySplit Predicate.isOr ps groups) ∧
    (priorityGroups Predicate.isOr ps).length =
      (if ps = [] then 0 else ps.tail.countP Predicate.isOr + 1) ∧
    (∀ p rest joined, ps = p :: rest →
      ∃ group groups, priorityGroups Predicate.isOr ps = (p :: group) :: groups ∧
        priorityGroups Predicate.isOr (p.joinedBy joined :: rest) =
          (p.joinedBy joined :: group) :: groups) ∧
    (∀ q q' : QueryState, q.predicates = ps →
      Relation.ReflTransGen Retagged ps q'.predicates → query q' = query q) := by
  refine ⟨fun groups => priorityGroups_eq_iff, ?_, ?_, ?_⟩
  · cases ps with
    | nil => rfl
    | cons p rest => exact length_priorityGroups_cons p rest
  · rintro p rest joined rfl
    obtain ⟨group, groups, hgroups⟩ := exists_priorityGroups_cons Predicate.isOr rest
    exact ⟨group, groups, hgroups p, hgroups _⟩
  · rintro q q' rfl h
    exact query_of_retagged h

/-- Three groups, of which two are begun by a predicate after the first, and a nested query whose
first predicate is joined by OR as well. -/
theorem priority_split_unique_nested :
    let test (column : String) (joined : Conjunction) : Predicate :=
      .basic column .exists (some .eq) .null joined
    let ps : List Predicate :=
      [test "a" .or, .nested {} [test "b" .or, test "c" .and] .or, test "d" .and, test "e" .or]
    let retagged : List Predicate :=
      [test "a" .and, .nested {} [test "b" .and, test "c" .and] .or, test "d" .and, test "e" .or]
    Relation.ReflTransGen Retagged ps retagged ∧
      (priorityGroups Predicate.isOr ps).length = 3 ∧
      IsPrioritySplit Predicate.isOr ps
        [[test "a" .or], [.nested {} [test "b" .or, test "c" .and] .or, test "d" .and],
          [test "e" .or]] ∧
      (∃ group groups, priorityGroups Predicate.isOr ps = (test "a" .or :: group) :: groups ∧
        priorityGroups Predicate.isOr (test "a" .and :: ps.tail) =
          (test "a" .and :: group) :: groups) ∧
      query { predicates := retagged } = query { predicates := ps } := by
  intro test ps retagged
  have hretagged : Relation.ReflTransGen Retagged ps retagged := by
    refine .tail (.single (.first (test "a" .or) ps.tail .and)) ?_
    exact .inside [test "a" .and] [test "d" .and, test "e" .or] {} .or
      (.first (test "b" .or) [test "c" .and] .and)
  obtain ⟨hsplit, hlength, hfirst, hquery⟩ := priority_split_unique ps
  exact ⟨hretagged, hlength, (hsplit _).mp rfl, hfirst (test "a" .or) _ .and rfl,
    hquery { predicates := ps } { predicates := retagged } rfl hretagged⟩

end Compile

end DocSearch
