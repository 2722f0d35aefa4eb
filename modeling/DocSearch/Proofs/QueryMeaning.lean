import DocSearch.Proofs.Members
import Mathlib.Tactic.Common

/-!
# What a compiled query means

A law says what it takes for a list of predicates to hold, given which of them hold; it is
applied again to the list of every nested query (`Law.Holds`). Three laws are compared.

* `compiledLaw` is the law of the compiled query (`query_holds_iff`). One group holds if all
  of its members do. Several groups hold if the members of a group that are not negated do, of
  which there has to be one, or if a negated member does, whatever else is in its group.
* `precedenceLaw` is the law that AND binds tighter than OR, negation included: a list holds
  if all members of one of its groups do. It is not the law of the compiled query
  (`not_query_precedence`): among several groups a negated member is a branch of its own.
* `branchLaw` is the law of precedence for the branches of a list, which are its groups after
  the negated members of several groups have been moved out of them. It is the law of the
  compiled query, which therefore holds wherever precedence asks for it, and nowhere else if
  no negated member has to be moved (`query_precedence`).
-/

namespace DocSearch.Compile

/-! ## Laws -/

/-- A law: whether a list of predicates holds, given which predicates hold. -/
abbrev Law := (Predicate → Prop) → List Predicate → Prop

/-- Whether a predicate holds. A test holds if its clause does, a negated one if its clause
does not; a nested query holds if the law says so of its predicates. -/
def Law.Holds (law : Law) (v : Valuation) : Predicate → Prop
  | .basic column leaf operator value _ =>
    ∃ c, clause leaf column value operator = .ok c ∧ if operator = some .ne then ¬ v c else v c
  | .nested _ inner _ => law (fun p => ∃ _ : p ∈ inner, law.Holds v p) inner
termination_by p => sizeOf p
decreasing_by
  have := List.sizeOf_lt_of_mem ‹p ∈ inner›
  simp only [Predicate.nested.sizeOf_spec]
  omega

def Law.HoldsAll (law : Law) (v : Valuation) (ps : List Predicate) : Prop := law (law.Holds v) ps

/-- More predicates that hold do not keep a list from holding, and only its own members count.
-/
def Law.Monotone (law : Law) : Prop :=
  ∀ ⦃holds holds' : Predicate → Prop⦄ ⦃ps : List Predicate⦄,
    (∀ p ∈ ps, holds p → holds' p) → law holds ps → law holds' ps

theorem Law.Monotone.congr {law : Law} (hlaw : law.Monotone) {holds holds' : Predicate → Prop}
    {ps : List Predicate} (h : ∀ p ∈ ps, holds p ↔ holds' p) : law holds ps ↔ law holds' ps :=
  ⟨hlaw fun p hp => (h p hp).mp, hlaw fun p hp => (h p hp).mpr⟩

theorem Law.holds_basic {law : Law} {v : Valuation} {column : String} {leaf : LeafKind}
    {operator : Option Operator} {value : Json} {joined : Conjunction} :
    law.Holds v (.basic column leaf operator value joined) ↔
      ∃ c, clause leaf column value operator = .ok c ∧
        if operator = some .ne then ¬ v c else v c := by
  rw [Law.Holds]

theorem Law.holds_nested {law : Law} (hlaw : law.Monotone) {v : Valuation} {settings : Settings}
    {inner : List Predicate} {joined : Conjunction} :
    law.Holds v (.nested settings inner joined) ↔ law.HoldsAll v inner := by
  rw [Law.Holds]
  exact hlaw.congr fun p hp => exists_prop_of_true hp

def compiledLaw : Law := fun holds ps =>
  match groups ps with
  | [] => True
  | [group] => ∀ p ∈ group, holds p
  | groups =>
    (∃ group ∈ groups, (∃ p ∈ group, p.isNegated = false) ∧
        ∀ p ∈ group, p.isNegated = false → holds p) ∨
      ∃ group ∈ groups, ∃ p ∈ group, p.isNegated = true ∧ holds p

/-- The law that AND binds tighter than OR. -/
def precedenceLaw : Law := fun holds ps => ps = [] ∨ ∃ group ∈ groups ps, ∀ p ∈ group, holds p

/-- A group without its negated members, if others are left, and each negated member by
itself. -/
def branchesOf (group : List Predicate) : List (List Predicate) :=
  match group.filter (!·.isNegated) with
  | [] => (group.filter (·.isNegated)).map ([·])
  | held => held :: (group.filter (·.isNegated)).map ([·])

/-- The branches of a list: its group if there is one, and else those of its groups. -/
def branches (ps : List Predicate) : List (List Predicate) :=
  match groups ps with
  | [group] => [group]
  | groups => groups.flatMap branchesOf

/-- The law of precedence for the branches of a list. -/
def branchLaw : Law := fun holds ps => ps = [] ∨ ∃ branch ∈ branches ps, ∀ p ∈ branch, holds p

/-! ## The law of several groups -/

theorem compiledLaw_nil {holds : Predicate → Prop} : compiledLaw holds [] := trivial

theorem compiledLaw_of_one_group {holds : Predicate → Prop} {ps : List Predicate}
    (h : groups ps = [ps]) : compiledLaw holds ps ↔ ∀ p ∈ ps, holds p := by
  rw [compiledLaw, h]

theorem compiledLaw_of_groups {holds : Predicate → Prop} {ps : List Predicate}
    (h : 1 < (groups ps).length) :
    compiledLaw holds ps ↔
      (∃ group ∈ groups ps, (∃ p ∈ group, p.isNegated = false) ∧
          ∀ p ∈ group, p.isNegated = false → holds p) ∨
        ∃ group ∈ groups ps, ∃ p ∈ group, p.isNegated = true ∧ holds p := by
  unfold compiledLaw
  split
  · rename_i hg
    simp [hg] at h
  · rename_i hg
    simp [hg] at h
  · rfl

theorem compiledLaw_monotone : compiledLaw.Monotone := by
  intro holds holds' ps h hps
  have hmem : ∀ group ∈ groups ps, ∀ p ∈ group, p ∈ ps := fun group hg p hp =>
    mem_of_mem_priorityGroups hg hp
  rcases groups_cases ps with rfl | hone | hmany
  · exact compiledLaw_nil
  · rw [compiledLaw_of_one_group hone] at hps ⊢
    exact fun p hp => h p hp (hps p hp)
  · rw [compiledLaw_of_groups hmany] at hps ⊢
    rcases hps with ⟨group, hg, hheld, hall⟩ | ⟨group, hg, p, hp, hneg, hholds⟩
    · exact Or.inl ⟨group, hg, hheld, fun p hp hpos => h p (hmem group hg p hp) (hall p hp hpos)⟩
    · exact Or.inr ⟨group, hg, p, hp, hneg, h p (hmem group hg p hp) hholds⟩

theorem precedenceLaw_monotone : precedenceLaw.Monotone := by
  rintro holds holds' ps h (rfl | ⟨group, hg, hall⟩)
  · exact Or.inl rfl
  · exact Or.inr ⟨group, hg, fun p hp => h p (mem_of_mem_priorityGroups hg hp) (hall p hp)⟩

/-! ## The law of the compiled query -/

/-- Whether the clause of a predicate says that it holds. -/
def ClauseHolds (v : Valuation) (p : Predicate) : Prop :=
  if p.isNegated then ¬ Holds v (clauseOf p) else Holds v (clauseOf p)

theorem forall_holds_joinedClauses {v : Valuation} (clauses : List Json) :
    (∀ c ∈ joinedClauses clauses, Holds v c) ↔ ∀ c ∈ clauses, Holds v c := by
  unfold joinedClauses
  split
  · rfl
  · rfl
  · simp [holds_bool (boolClauses?_allOf _)]

theorem exists_holds_joinedClauses {v : Valuation} (clauses : List Json) :
    (∃ c ∈ joinedClauses clauses, Holds v c) ↔ clauses ≠ [] ∧ ∀ c ∈ clauses, Holds v c := by
  unfold joinedClauses
  split
  · simp
  · simp
  · rename_i hne _
    rw [and_iff_right hne]
    simp [holds_bool (boolClauses?_allOf _)]

theorem forall_heldClauses {P : Json → Prop} {ps : List Predicate} :
    (∀ c ∈ heldClauses ps, P c) ↔ ∀ p ∈ ps, p.isNegated = false → P (clauseOf p) := by
  rw [heldClauses, List.forall_mem_map]
  simp

theorem forall_deniedClauses {P : Json → Prop} {ps : List Predicate} :
    (∀ c ∈ deniedClauses ps, P c) ↔ ∀ p ∈ ps, p.isNegated = true → P (clauseOf p) := by
  rw [deniedClauses, List.forall_mem_map]
  simp

theorem heldClauses_ne_nil {ps : List Predicate} :
    heldClauses ps ≠ [] ↔ ∃ p ∈ ps, p.isNegated = false := by
  simp [heldClauses]

theorem holds_noneOf {v : Valuation} {c : Json} (h : IsLeaf c) :
    Holds v (noneOf c) ↔ ¬ Holds v c := by
  simp [holds_bool (boolClauses?_noneOf h)]

/-- A branch clause of a group holds where the members of the group that are not negated hold,
if there are such members, and where a negated member does. -/
theorem exists_holds_branchClauses {v : Valuation} {group : List Predicate}
    (hgroup : ∀ p ∈ group, Compiles p) :
    (∃ c ∈ branchClauses group, Holds v c) ↔
      ((∃ p ∈ group, p.isNegated = false) ∧ ∀ p ∈ group, p.isNegated = false → ClauseHolds v p) ∨
        ∃ p ∈ group, p.isNegated = true ∧ ClauseHolds v p := by
  have hheld : (∃ c ∈ joinedClauses (heldClauses group), Holds v c) ↔
      (∃ p ∈ group, p.isNegated = false) ∧
        ∀ p ∈ group, p.isNegated = false → ClauseHolds v p := by
    rw [exists_holds_joinedClauses, heldClauses_ne_nil, forall_heldClauses]
    refine and_congr_right fun _ => forall₂_congr fun p _ => imp_congr_right fun hpos => ?_
    simp [ClauseHolds, hpos]
  have hdenied : (∃ c ∈ (deniedClauses group).map noneOf, Holds v c) ↔
      ∃ p ∈ group, p.isNegated = true ∧ ClauseHolds v p := by
    constructor
    · rintro ⟨c, hc, hholds⟩
      obtain ⟨d, hd, rfl⟩ := List.mem_map.mp hc
      obtain ⟨p, hp, rfl⟩ := List.mem_map.mp hd
      obtain ⟨hp, hneg⟩ := List.mem_filter.mp hp
      rw [holds_noneOf (isLeaf_clauseOf (hgroup p hp) hneg)] at hholds
      exact ⟨p, hp, hneg, by simpa [ClauseHolds, hneg] using hholds⟩
    · rintro ⟨p, hp, hneg, hholds⟩
      refine ⟨noneOf (clauseOf p), ?_, ?_⟩
      · exact List.mem_map_of_mem (List.mem_map_of_mem (List.mem_filter.mpr ⟨hp, hneg⟩))
      · rw [holds_noneOf (isLeaf_clauseOf (hgroup p hp) hneg)]
        simpa [ClauseHolds, hneg] using hholds
  simp only [branchClauses, List.mem_append, or_and_right, exists_or, hheld, hdenied]

/-- The document of a list holds where the law of the compiled query says so of the clauses of
its members. -/
theorem holds_document {v : Valuation} {ps : List Predicate} (hps : ∀ p ∈ ps, Compiles p) :
    Holds v (document ps) ↔ compiledLaw (ClauseHolds v) ps := by
  rcases groups_cases ps with rfl | hone | hmany
  · exact iff_of_true ((holds_not_bool boolClauses?_matchAll).mpr (Or.inl rfl)) compiledLaw_nil
  · rw [holds_bool (boolClauses?_of_one_group hone), compiledLaw_of_one_group hone]
    simp only [reduceCtorEq, false_implies, implies_true, and_true]
    rw [forall_holds_joinedClauses, forall_heldClauses, forall_deniedClauses, ← forall₂_and]
    refine forall₂_congr fun p _ => ?_
    cases hneg : p.isNegated <;> simp [ClauseHolds, hneg]
  · -- a `should` holds where a branch clause of one of the groups does
    have hgroup : ∀ group ∈ groups ps, ∀ p ∈ group, Compiles p := fun group hg p hp =>
      hps p (mem_of_mem_priorityGroups hg hp)
    have hbranch : (∃ c ∈ (groups ps).flatMap branchClauses, Holds v c) ↔
        ∃ group ∈ groups ps, ∃ c ∈ branchClauses group, Holds v c := by
      simp only [List.mem_flatMap]
      tauto
    rw [holds_bool (boolClauses?_of_groups hmany), compiledLaw_of_groups hmany]
    simp only [List.not_mem_nil, false_implies, implies_true, true_and, Option.some.injEq,
      forall_eq']
    rw [hbranch, ← exists_or]
    refine exists_congr fun group => ?_
    rw [← and_or_left]
    exact and_congr_right fun hg => exists_holds_branchClauses (hgroup group hg)

theorem clauseHolds_iff {v : Valuation} {p : Predicate} (h : Compiles p) :
    ClauseHolds v p ↔ compiledLaw.Holds v p := by
  induction p with
  | basic column leaf operator value joined =>
    obtain ⟨c, hc⟩ := compiles_basic.mp h
    have hleaf : Holds v c ↔ v c := (isLeaf_of_clause hc).holds_iff
    rw [Law.holds_basic, ClauseHolds, clauseOf_basic hc]
    simp [hc, hleaf, Predicate.isNegated]
  | nested settings inner joined ih =>
    have hinner := compiles_nested.mp h
    rw [Law.holds_nested compiledLaw_monotone, ClauseHolds, clauseOf_nested hinner]
    simp only [Predicate.isNegated, Bool.false_eq_true, if_false]
    -- the law asks only about members, of which the induction hypothesis speaks
    rw [holds_document hinner]
    exact compiledLaw_monotone.congr fun p hp => ih p hp (hinner p hp)

theorem holds_document_iff {v : Valuation} {ps : List Predicate} (hps : ∀ p ∈ ps, Compiles p) :
    Holds v (document ps) ↔ compiledLaw.HoldsAll v ps := by
  rw [holds_document hps]
  exact compiledLaw_monotone.congr fun p hp => clauseHolds_iff (hps p hp)

/-- **The meaning of a compiled query.** Whatever leaf clauses hold, the document of a query
state holds exactly where the law of the compiled query says so of its predicates, at every
depth of nesting. -/
theorem query_holds_iff (v : Valuation) {q : QueryState} {d : Json} (h : query q = .ok d) :
    Holds v d ↔ compiledLaw.HoldsAll v q.predicates := by
  obtain ⟨hps, rfl⟩ := query_eq_ok_iff.mp h
  exact holds_document_iff hps

theorem query_holds_iff_staff :
    query staff = .ok staffDocument ∧
      (Holds (· = termClause "role" "admin") staffDocument ↔
        compiledLaw.HoldsAll (· = termClause "role" "admin") staff.predicates) :=
  ⟨rfl, query_holds_iff _ rfl⟩

/-! ## Precedence -/

theorem mem_branchesOf {group branch : List Predicate} :
    branch ∈ branchesOf group ↔
      (branch = group.filter (!·.isNegated) ∧ ∃ p ∈ group, p.isNegated = false) ∨
        ∃ p ∈ group, p.isNegated = true ∧ branch = [p] := by
  have hheld : group.filter (!·.isNegated) ≠ [] ↔ ∃ p ∈ group, p.isNegated = false := by simp
  have hnegated : branch ∈ (group.filter (·.isNegated)).map ([·]) ↔
      ∃ p ∈ group, p.isNegated = true ∧ branch = [p] := by
    simp only [List.mem_map, List.mem_filter, and_assoc]
    exact exists_congr fun p => and_congr_right fun _ => and_congr_right fun _ => eq_comm
  rw [← hheld, ← hnegated]
  unfold branchesOf
  split
  · rename_i hnil
    rw [or_iff_right]
    rintro ⟨-, hne⟩
    exact hne hnil
  · rename_i hne
    rw [List.mem_cons, and_iff_left hne]

theorem branchLaw_iff {holds : Predicate → Prop} {ps : List Predicate} :
    branchLaw holds ps ↔ compiledLaw holds ps := by
  rcases groups_cases ps with rfl | hone | hmany
  · exact iff_of_true (Or.inl rfl) compiledLaw_nil
  · have hbranches : branches ps = [ps] := by rw [branches, hone]
    rw [compiledLaw_of_one_group hone, branchLaw, hbranches]
    simp [ne_nil_of_one_group hone]
  · have hbranches : branches ps = (groups ps).flatMap branchesOf := by
      unfold branches
      split
      · rename_i hg
        simp [hg] at hmany
      · rfl
    rw [compiledLaw_of_groups hmany, branchLaw, hbranches,
      or_iff_right (ne_nil_of_groups hmany)]
    constructor
    · rintro ⟨branch, hbranch, hall⟩
      obtain ⟨group, hg, hbranch⟩ := List.mem_flatMap.mp hbranch
      rcases mem_branchesOf.mp hbranch with ⟨rfl, hheld⟩ | ⟨p, hp, hneg, rfl⟩
      · refine Or.inl ⟨group, hg, hheld, fun p hp hpos => hall p ?_⟩
        exact List.mem_filter.mpr ⟨hp, by simp [hpos]⟩
      · exact Or.inr ⟨group, hg, p, hp, hneg, hall p (List.mem_singleton_self p)⟩
    · rintro (⟨group, hg, hheld, hall⟩ | ⟨group, hg, p, hp, hneg, hholds⟩)
      · have hbranch : group.filter (!·.isNegated) ∈ branchesOf group :=
          mem_branchesOf.mpr (Or.inl ⟨rfl, hheld⟩)
        refine ⟨_, List.mem_flatMap.mpr ⟨group, hg, hbranch⟩, ?_⟩
        intro p hp
        obtain ⟨hp, hpos⟩ := List.mem_filter.mp hp
        exact hall p hp (by simpa using hpos)
      · have hbranch : [p] ∈ branchesOf group := mem_branchesOf.mpr (Or.inr ⟨p, hp, hneg, rfl⟩)
        refine ⟨[p], List.mem_flatMap.mpr ⟨group, hg, hbranch⟩, ?_⟩
        intro p' hp'
        rw [List.mem_singleton.mp hp']
        exact hholds

/-- A group all of whose members hold has a branch that holds. -/
theorem compiledLaw_of_precedenceLaw {holds : Predicate → Prop} {ps : List Predicate}
    (h : precedenceLaw holds ps) : compiledLaw holds ps := by
  rcases h with rfl | ⟨group, hg, hall⟩
  · exact compiledLaw_nil
  · rcases groups_cases ps with rfl | hone | hmany
    · exact compiledLaw_nil
    · rw [compiledLaw_of_one_group hone]
      rw [hone] at hg
      rwa [List.mem_singleton.mp hg] at hall
    · rw [compiledLaw_of_groups hmany]
      -- a group of negated members only has a branch for each of them
      by_cases hheld : ∃ p ∈ group, p.isNegated = false
      · exact Or.inl ⟨group, hg, hheld, fun p hp _ => hall p hp⟩
      · obtain ⟨p, hp⟩ := List.exists_mem_of_ne_nil _ (ne_nil_of_mem_priorityGroups hg)
        have hneg : p.isNegated = true := by
          by_contra hpos
          exact hheld ⟨p, hp, by simpa using hpos⟩
        exact Or.inr ⟨group, hg, p, hp, hneg, hall p hp⟩

/-- Of several groups, those with a negated member have no other member. -/
def NegatedAlone (ps : List Predicate) : Prop :=
  (groups ps).length ≤ 1 ∨ ∀ group ∈ groups ps, ∀ p ∈ group, p.isNegated = true → group = [p]

theorem compiledLaw_iff_precedenceLaw {holds : Predicate → Prop} {ps : List Predicate}
    (h : NegatedAlone ps) : compiledLaw holds ps ↔ precedenceLaw holds ps := by
  refine ⟨fun hps => ?_, compiledLaw_of_precedenceLaw⟩
  rcases groups_cases ps with rfl | hone | hmany
  · exact Or.inl rfl
  · rw [compiledLaw_of_one_group hone] at hps
    exact Or.inr ⟨ps, mem_groups_of_one_group hone, hps⟩
  · rcases h with hle | halone
    · omega
    · rw [compiledLaw_of_groups hmany] at hps
      rcases hps with ⟨group, hg, ⟨p, hp, hpos⟩, hall⟩ | ⟨group, hg, p, hp, hneg, hholds⟩
      · refine Or.inr ⟨group, hg, fun p' hp' => hall p' hp' ?_⟩
        -- a negated member would be alone, and `p` is there too
        by_contra hneg
        rw [halone group hg p' hp' (by simpa using hneg)] at hp
        rw [List.mem_singleton.mp hp] at hpos
        exact hneg hpos
      · refine Or.inr ⟨group, hg, ?_⟩
        rw [halone group hg p hp hneg]
        simpa using hholds

theorem holds_of_precedence {v : Valuation} (p : Predicate) :
    precedenceLaw.Holds v p → compiledLaw.Holds v p := by
  induction p with
  | basic column leaf operator value joined => rw [Law.holds_basic, Law.holds_basic]; exact id
  | nested settings inner joined ih =>
    rw [Law.holds_nested precedenceLaw_monotone, Law.holds_nested compiledLaw_monotone]
    exact fun h => compiledLaw_of_precedenceLaw (precedenceLaw_monotone ih h)

theorem holdsAll_of_precedence {v : Valuation} {ps : List Predicate}
    (h : precedenceLaw.HoldsAll v ps) : compiledLaw.HoldsAll v ps :=
  compiledLaw_of_precedenceLaw (precedenceLaw_monotone (fun p _ => holds_of_precedence p) h)

/-- Two laws that agree on a list and on all lists of nested queries in it agree on its
members. -/
theorem holds_iff_of_laws {law law' : Law} (hlaw : law.Monotone) (hlaw' : law'.Monotone)
    {v : Valuation} (p : Predicate) {ps : List Predicate} (hp : p ∈ ps)
    (h : ∀ qs, ListWithin ps qs → ∀ holds, law holds qs ↔ law' holds qs) :
    law.Holds v p ↔ law'.Holds v p := by
  induction p generalizing ps with
  | basic column leaf operator value joined => rw [Law.holds_basic, Law.holds_basic]
  | nested settings inner joined ih =>
    rw [Law.holds_nested hlaw, Law.holds_nested hlaw']
    have hinner : ∀ qs, ListWithin inner qs → ∀ holds, law holds qs ↔ law' holds qs :=
      fun qs hqs => h qs (hqs.of_mem hp)
    exact (hlaw.congr fun p hp => ih p hp hp hinner).trans (hinner inner .self _)

theorem holdsAll_iff_of_laws {law law' : Law} (hlaw : law.Monotone) (hlaw' : law'.Monotone)
    {v : Valuation} {ps : List Predicate}
    (h : ∀ qs, ListWithin ps qs → ∀ holds, law holds qs ↔ law' holds qs) :
    law.HoldsAll v ps ↔ law'.HoldsAll v ps :=
  (hlaw.congr fun p hp => holds_iff_of_laws hlaw hlaw' p hp h).trans (h ps .self _)

theorem branchLaw_monotone : branchLaw.Monotone := by
  intro holds holds' ps h hps
  rw [branchLaw_iff] at hps ⊢
  exact compiledLaw_monotone h hps

/-- The document of `adminsOrEditors` holds of somebody who is neither admin nor editor, if
only they are not banned; precedence would have them be an editor. -/
theorem not_query_precedence :
    ¬ ∀ (v : Valuation) (q : QueryState) (d : Json), query q = .ok d → q.predicates ≠ [] →
      (Holds v d ↔ precedenceLaw.HoldsAll v q.predicates) := by
  intro h
  have hq : query adminsOrEditors = .ok adminsOrEditorsDocument := rfl
  have hbanned : IsLeaf (termClause "status" "banned") := ⟨_, _, rfl, by decide, by decide⟩
  have hclauses : boolClauses? adminsOrEditorsDocument =
      some ⟨[], [], some [termClause "role" "admin", termClause "role" "editor",
        noneOf (termClause "status" "banned")]⟩ := rfl
  have hholds : Holds (fun _ => False) adminsOrEditorsDocument := by
    simp [holds_bool hclauses, holds_noneOf hbanned, hbanned.holds_iff]
  rcases (h _ _ _ hq (by simp [adminsOrEditors])).mp hholds with hnil | ⟨group, hg, hall⟩
  · simp [adminsOrEditors] at hnil
  · have hgroups : groups adminsOrEditors.predicates =
        [[.basic "role" .term (some .eq) (.text "admin") .and],
          [.basic "role" .term (some .eq) (.text "editor") .or,
            .basic "status" .term (some .ne) (.text "banned") .and]] := rfl
    rw [hgroups] at hg
    simp only [List.mem_cons, List.not_mem_nil, or_false] at hg
    rcases hg with rfl | rfl
    all_goals
      obtain ⟨c, -, hc⟩ := Law.holds_basic.mp (hall _ List.mem_cons_self)
      simp at hc

/-- **Precedence.** The document of a query state holds exactly where all members of one
branch of its predicates hold. It holds wherever all members of one priority group do, and
nowhere else if in the list and in the lists of its nested queries the negated members of
several groups are alone in theirs. -/
theorem query_precedence (v : Valuation) {q : QueryState} {d : Json} (h : query q = .ok d) :
    (Holds v d ↔ branchLaw.HoldsAll v q.predicates) ∧
      (precedenceLaw.HoldsAll v q.predicates → Holds v d) ∧
      ((∀ qs, ListWithin q.predicates qs → NegatedAlone qs) →
        (Holds v d ↔ precedenceLaw.HoldsAll v q.predicates)) := by
  obtain ⟨hps, rfl⟩ := query_eq_ok_iff.mp h
  rw [holds_document_iff hps]
  refine ⟨?_, holdsAll_of_precedence, fun halone => ?_⟩
  · exact holdsAll_iff_of_laws compiledLaw_monotone branchLaw_monotone
      fun qs _ holds => branchLaw_iff.symm
  · exact holdsAll_iff_of_laws compiledLaw_monotone precedenceLaw_monotone
      fun qs hqs holds => compiledLaw_iff_precedenceLaw (halone qs hqs)

/-- Two groups, of which the negated test is one: the document asks for what precedence does.
-/
theorem query_precedence_alone :
    let unbannedOrAdmin : QueryState :=
      { predicates :=
          [.basic "status" .term (some .ne) (.text "banned") .and,
            .basic "role" .term (some .eq) (.text "admin") .or] }
    let document : Json :=
      .single "bool" (.single "should" (.array
        [noneOf (termClause "status" "banned"), termClause "role" "admin"]))
    query unbannedOrAdmin = .ok document ∧
      (∀ qs, ListWithin unbannedOrAdmin.predicates qs → NegatedAlone qs) ∧
      (Holds (· = termClause "role" "admin") document ↔
        precedenceLaw.HoldsAll (· = termClause "role" "admin") unbannedOrAdmin.predicates) := by
  intro unbannedOrAdmin document
  have halone : ∀ qs, ListWithin unbannedOrAdmin.predicates qs → NegatedAlone qs := by
    intro qs hqs
    rw [hqs.eq_of_tests (by simp [unbannedOrAdmin, Predicate.isNested])]
    refine Or.inr ?_
    simp [unbannedOrAdmin, groups, priorityGroups, Predicate.isOr, Predicate.joined,
      Predicate.isNegated]
  exact ⟨rfl, halone, (query_precedence _ rfl).2.2 halone⟩

end DocSearch.Compile
