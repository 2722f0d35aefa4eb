import DocSearch.Proofs.Members
import Mathlib.Data.List.Perm.Basic

/-!
# The shape of a compiled query

The document of a query state has every test of the state at a leaf, once and with its sign,
and every boolean query in it has one of a few shapes.

* `signedLeaves_document`: the leaves of the document of a list are, up to their order, those
  of the clauses of its members.
* `ownNode_or_within`, `exists_ownNode`: every boolean query in the document is arranged from
  the members of one list (`OwnNode`), which is the list itself or that of a nested query.
* `query_faithful`: what both say of the document of a query state.
-/

namespace DocSearch.Compile

/-! ## Tests and their signs -/

mutual

/-- The tests of a predicate, each with whether it is negated and what its clause compiles to.
An empty nested query stands for the query that every document matches. -/
def signedTests : Predicate → List (Bool × Except CompileError Json)
  | .basic column leaf operator value _ =>
    [(decide (operator = some .ne), clause leaf column value operator)]
  | .nested _ inner _ =>
    if inner.isEmpty then [(false, .ok (.object [("match_all", .object [])]))]
    else membersTests inner

def membersTests : List Predicate → List (Bool × Except CompileError Json)
  | [] => []
  | p :: ps => signedTests p ++ membersTests ps

end

/-- The tests of a list of predicates; the empty list stands for the query that every document
matches. -/
def listTests (ps : List Predicate) : List (Bool × Except CompileError Json) :=
  if ps.isEmpty then [(false, .ok (.object [("match_all", .object [])]))]
  else membersTests ps

theorem membersTests_eq_flatMap (ps : List Predicate) :
    membersTests ps = ps.flatMap signedTests := by
  induction ps with
  | nil => rfl
  | cons p ps ih => rw [membersTests, ih, List.flatMap_cons]

/-- The leaves of the clause of a predicate, under its sign. -/
def leavesOf (p : Predicate) : List (Bool × Json) := signedLeaves p.isNegated (clauseOf p)

theorem flatMap_signedLeaves_joinedClauses (clauses : List Json) :
    (joinedClauses clauses).flatMap (signedLeaves false) =
      clauses.flatMap (signedLeaves false) := by
  unfold joinedClauses
  split
  · rfl
  · rfl
  · simp [signedLeaves_bool (boolClauses?_allOf _)]

theorem flatMap_signedLeaves_heldClauses (ps : List Predicate) :
    (heldClauses ps).flatMap (signedLeaves false) =
      (ps.filter (!·.isNegated)).flatMap leavesOf := by
  rw [heldClauses, List.flatMap_map]
  refine List.flatMap_congr fun p hp => ?_
  have hpos : p.isNegated = false := by simpa using (List.mem_filter.mp hp).2
  rw [leavesOf, hpos]

theorem flatMap_signedLeaves_deniedClauses (ps : List Predicate) :
    (deniedClauses ps).flatMap (signedLeaves true) =
      (ps.filter (·.isNegated)).flatMap leavesOf := by
  rw [deniedClauses, List.flatMap_map]
  refine List.flatMap_congr fun p hp => ?_
  rw [leavesOf, (List.mem_filter.mp hp).2]

/-- Wrapping a negated clause keeps its sign. -/
theorem flatMap_signedLeaves_noneOf {ps : List Predicate} (hps : ∀ p ∈ ps, Compiles p) :
    ((deniedClauses ps).map noneOf).flatMap (signedLeaves false) =
      (deniedClauses ps).flatMap (signedLeaves true) := by
  rw [List.flatMap_map]
  refine List.flatMap_congr fun c hc => ?_
  obtain ⟨p, hp, rfl⟩ := List.mem_map.mp hc
  obtain ⟨hp, hneg⟩ := List.mem_filter.mp hp
  rw [signedLeaves_bool (boolClauses?_noneOf (isLeaf_clauseOf (hps p hp) hneg))]
  simp

theorem flatMap_filter_perm (ps : List Predicate) :
    ((ps.filter (!·.isNegated)).flatMap leavesOf ++ (ps.filter (·.isNegated)).flatMap leavesOf).Perm
      (ps.flatMap leavesOf) := by
  rw [← List.flatMap_append]
  refine List.Perm.flatMap_right _ ?_
  simpa using List.filter_append_perm (fun p : Predicate => !p.isNegated) ps

theorem signedLeaves_document {ps : List Predicate} (hps : ∀ p ∈ ps, Compiles p) (hne : ps ≠ []) :
    (signedLeaves false (document ps)).Perm (ps.flatMap leavesOf) := by
  rcases groups_cases ps with hnil | hone | hmany
  · exact (hne hnil).elim
  · rw [signedLeaves_bool (boolClauses?_of_one_group hone)]
    simp only [Option.getD_none, List.flatMap_nil, List.append_nil]
    rw [flatMap_signedLeaves_joinedClauses, flatMap_signedLeaves_heldClauses,
      flatMap_signedLeaves_deniedClauses]
    exact flatMap_filter_perm ps
  · have hbranch : ∀ group ∈ groups ps,
        ((branchClauses group).flatMap (signedLeaves false)).Perm (group.flatMap leavesOf) := by
      intro group hg
      have hgroup : ∀ p ∈ group, Compiles p := fun p hp => hps p (mem_of_mem_priorityGroups hg hp)
      rw [branchClauses, List.flatMap_append, flatMap_signedLeaves_joinedClauses,
        flatMap_signedLeaves_heldClauses, flatMap_signedLeaves_noneOf hgroup,
        flatMap_signedLeaves_deniedClauses]
      exact flatMap_filter_perm group
    rw [signedLeaves_bool (boolClauses?_of_groups hmany)]
    simp only [List.flatMap_nil, List.nil_append, Option.getD_some]
    -- the groups in a row are the list
    have hflat : ps.flatMap leavesOf = (groups ps).flatMap fun group => group.flatMap leavesOf := by
      conv => lhs; rw [← flatten_priorityGroups Predicate.isOr ps, List.flatten_eq_flatMap]
      rw [List.flatMap_assoc]
      rfl
    rw [List.flatMap_assoc, hflat]
    exact List.Perm.flatMap_left _ hbranch

/-- A leaf as a test whose clause compiles. -/
def resultOf (leaf : Bool × Json) : Bool × Except CompileError Json := (leaf.1, .ok leaf.2)

theorem map_leavesOf {p : Predicate} (h : Compiles p) :
    ((leavesOf p).map resultOf).Perm (signedTests p) := by
  induction p with
  | basic column leaf operator value joined =>
    obtain ⟨c, hc⟩ := compiles_basic.mp h
    have hread := (isLeaf_of_clause hc).boolClauses?_eq_none
    rw [leavesOf, clauseOf_basic hc, signedLeaves_not_bool hread, signedTests, hc]
    exact List.Perm.refl _
  | nested settings inner joined ih =>
    have hinner := compiles_nested.mp h
    rw [leavesOf, clauseOf_nested hinner, signedTests]
    split
    · rename_i hnil
      rw [List.isEmpty_iff.mp hnil, document_nil, signedLeaves_not_bool boolClauses?_matchAll]
      exact List.Perm.refl _
    · rename_i hne
      have hne : inner ≠ [] := fun hnil => hne (List.isEmpty_iff.mpr hnil)
      refine ((signedLeaves_document hinner hne).map resultOf).trans ?_
      rw [List.map_flatMap, membersTests_eq_flatMap]
      exact List.Perm.flatMap_left _ fun p hp => ih p hp (hinner p hp)

theorem map_signedLeaves_document {ps : List Predicate} (hps : ∀ p ∈ ps, Compiles p) :
    ((signedLeaves false (document ps)).map resultOf).Perm (listTests ps) := by
  -- a list compiles as a nested query does
  have hquery := map_leavesOf (compiles_nested.mpr hps : Compiles (.nested {} ps .and))
  rwa [leavesOf, clauseOf_nested hps] at hquery

/-! ## The boolean queries of a list -/

/-- `OwnNode ps d parts`: the boolean query `d` with these parts is arranged from the members
of `ps` themselves. It is the document of the list, or one that joins the members of a group
or negates one member. -/
inductive OwnNode (ps : List Predicate) : Json → Json.Fields → Prop
  | oneGroup (h : groups ps = [ps]) :
      OwnNode ps (document ps)
        (part "must" (joinedClauses (heldClauses ps)) ++ part "must_not" (deniedClauses ps))
  | manyGroups (h : 1 < (groups ps).length) :
      OwnNode ps (document ps) [("should", .array ((groups ps).flatMap branchClauses))]
  | joined {group : List Predicate} (hg : group ∈ groups ps) (h : heldClauses group ≠ []) :
      OwnNode ps (allOf (heldClauses group)) [("must", .array (heldClauses group))]
  | negated {p : Predicate} (hp : p ∈ ps) (h : p.isNegated = true) :
      OwnNode ps (noneOf (clauseOf p)) [("must_not", clauseOf p)]

section OwnNodes

variable {ps : List Predicate} {d : Json} {parts : Json.Fields}

theorem IsLeaf.not_within {c : Json} (hc : IsLeaf c) (h : Within c d)
    (hd : boolParts? d = some parts) : False := by
  rw [h.eq_of_not_bool hc.boolClauses?_eq_none, hc.boolParts?_eq_none] at hd
  cases hd

/-- What stands in the joined clauses of a group joins them or stands in the clause of a
member. -/
theorem ownNode_or_within_of_joined {group : List Predicate} (hg : group ∈ groups ps) {c : Json}
    (hc : c ∈ joinedClauses (heldClauses group)) (h : Within c d)
    (hd : boolParts? d = some parts) :
    OwnNode ps d parts ∨ ∃ p ∈ ps, p.isNegated = false ∧ Within (clauseOf p) d := by
  have hmember : ∀ c ∈ heldClauses group, Within c d →
      ∃ p ∈ ps, p.isNegated = false ∧ Within (clauseOf p) d := by
    intro c hc h
    obtain ⟨p, hp, rfl⟩ := List.mem_map.mp hc
    obtain ⟨hp, hpos⟩ := List.mem_filter.mp hp
    exact ⟨p, mem_of_mem_priorityGroups hg hp, by simpa using hpos, h⟩
  unfold joinedClauses at hc
  split at hc
  · cases hc
  · rename_i heq
    rw [List.mem_singleton.mp hc] at h
    exact Or.inr (hmember _ (by rw [heq]; exact List.mem_cons_self) h)
  · rename_i hne _
    rw [List.mem_singleton.mp hc] at h
    rcases h.eq_or_clause with rfl | ⟨b, hb, c', hc', h⟩
    · cases hd
      exact Or.inl (.joined hg hne)
    · rw [boolClauses?_allOf] at hb
      cases hb
      exact Or.inr (hmember c' (by simpa [BoolClauses.all] using hc') h)

/-- A boolean query in the document of a list is arranged from its members or stands in the
clause of one of them. -/
theorem ownNode_or_within (hps : ∀ p ∈ ps, Compiles p) (h : Within (document ps) d)
    (hd : boolParts? d = some parts) :
    OwnNode ps d parts ∨ ∃ p ∈ ps, p.isNegated = false ∧ Within (clauseOf p) d := by
  have hleaf : ∀ c ∈ deniedClauses ps, IsLeaf c := by
    rw [deniedClauses, List.forall_mem_map]
    exact fun p hp => isLeaf_clauseOf (hps p (List.mem_filter.mp hp).1) (List.mem_filter.mp hp).2
  rcases groups_cases ps with rfl | hone | hmany
  · rw [h.eq_of_not_bool boolClauses?_matchAll] at hd
    cases hd
  · rcases h.eq_or_clause with rfl | ⟨b, hb, c, hc, h⟩
    · rw [boolParts?_of_one_group hone] at hd
      cases hd
      exact Or.inl (.oneGroup hone)
    · rw [boolClauses?_of_one_group hone] at hb
      cases hb
      simp only [BoolClauses.all, Option.getD_none, List.append_nil, List.mem_append] at hc
      rcases hc with hc | hc
      · exact ownNode_or_within_of_joined (mem_groups_of_one_group hone) hc h hd
      · exact ((hleaf c hc).not_within h hd).elim
  · rcases h.eq_or_clause with rfl | ⟨b, hb, c, hc, h⟩
    · rw [boolParts?_of_groups hmany] at hd
      cases hd
      exact Or.inl (.manyGroups hmany)
    · rw [boolClauses?_of_groups hmany] at hb
      cases hb
      simp only [BoolClauses.all, Option.getD_some, List.nil_append, List.mem_flatMap] at hc
      obtain ⟨group, hg, hc⟩ := hc
      rcases List.mem_append.mp hc with hc | hc
      · exact ownNode_or_within_of_joined hg hc h hd
      · -- a negated clause stands in a query of its own, and has no clauses itself
        obtain ⟨denied, hdenied, rfl⟩ := List.mem_map.mp hc
        obtain ⟨p, hp, rfl⟩ := List.mem_map.mp hdenied
        obtain ⟨hp, hneg⟩ := List.mem_filter.mp hp
        have hp := mem_of_mem_priorityGroups hg hp
        have hleaf := isLeaf_clauseOf (hps p hp) hneg
        rcases h.eq_or_clause with rfl | ⟨b, hb, c', hc', h⟩
        · cases hd
          exact Or.inl (.negated hp hneg)
        · rw [boolClauses?_noneOf hleaf] at hb
          cases hb
          have hc' : c' = clauseOf p := by simpa [BoolClauses.all] using hc'
          rw [hc'] at h
          exact (hleaf.not_within h hd).elim

/-- A boolean query in the clause of a predicate is arranged from the members of one list in
it. -/
theorem exists_ownNode_of_clause {p : Predicate} (hp : p ∈ ps) (hcomp : Compiles p)
    (h : Within (clauseOf p) d) (hd : boolParts? d = some parts) :
    ∃ qs, ListWithin ps qs ∧ (∀ p ∈ qs, Compiles p) ∧ OwnNode qs d parts := by
  -- the list that the predicate is in changes with the depth
  induction p generalizing ps with
  | basic column leaf operator value joined =>
    obtain ⟨c, hc⟩ := compiles_basic.mp hcomp
    rw [clauseOf_basic hc] at h
    exact ((isLeaf_of_clause hc).not_within h hd).elim
  | nested settings inner joined ih =>
    have hinner := compiles_nested.mp hcomp
    rw [clauseOf_nested hinner] at h
    rcases ownNode_or_within hinner h hd with hown | ⟨p, hmem, -, hp'⟩
    · exact ⟨inner, ListWithin.self.nested hp, hinner, hown⟩
    · obtain ⟨qs, hqs, hcomps, hown⟩ := ih p hmem hmem (hinner p hmem) hp'
      exact ⟨qs, hqs.of_mem hp, hcomps, hown⟩

theorem exists_ownNode (hps : ∀ p ∈ ps, Compiles p) (h : Within (document ps) d)
    (hd : boolParts? d = some parts) :
    ∃ qs, ListWithin ps qs ∧ (∀ p ∈ qs, Compiles p) ∧ OwnNode qs d parts := by
  rcases ownNode_or_within hps h hd with hown | ⟨p, hp, -, hp'⟩
  · exact ⟨ps, .self, hps, hown⟩
  · exact exists_ownNode_of_clause hp (hps p hp) hp' hd

end OwnNodes

/-! ## Shape and order -/

/-- The clauses of predicates in the order of their declaration. -/
def clausesOf (ps : List Predicate) : Except CompileError (List Json) :=
  (members ps).map fun ms => ms.map Member.clause

theorem clausesOf_eq_ok {ps : List Predicate} (hps : ∀ p ∈ ps, Compiles p) :
    clausesOf ps = .ok (ps.map clauseOf) := by
  rw [clausesOf, members_eq_ok_iff.mpr ⟨hps, rfl⟩]
  simp [Except.map, memberOf, Function.comp_def]

/-- `NodeShape ps d parts`: the parts that a boolean query `d` in the document of `ps` may
have. None of its arrays is empty, and a `should` is the only part: it belongs to a list of
several groups, and has a clause for each of them. -/
inductive NodeShape (ps : List Predicate) (d : Json) : Json.Fields → Prop
  | should {qs : List Predicate} {clauses : List Json} (hqs : ListWithin ps qs)
      (hd : query { predicates := qs } = .ok d) (hmany : 2 ≤ (groups qs).length)
      (hlength : (groups qs).length ≤ clauses.length) : NodeShape ps d [("should", .array clauses)]
  | must {clauses : List Json} (h : clauses ≠ []) : NodeShape ps d [("must", .array clauses)]
  | mustNot {clauses : List Json} (h : clauses ≠ []) : NodeShape ps d [("must_not", .array clauses)]
  | mustNotOne {c : Json} (h : IsLeaf c) : NodeShape ps d [("must_not", c)]
  | mustAndMustNot {must mustNot : List Json} (h : must ≠ []) (h' : mustNot ≠ []) :
      NodeShape ps d [("must", .array must), ("must_not", .array mustNot)]

/-- `InOrder ps negated clauses`: the clauses are those of the members of one group that are
negated, or of those that are not, in the order in which a list in `ps` declares them. -/
def InOrder (ps : List Predicate) (negated : Bool) (clauses : List Json) : Prop :=
  ∃ qs group, ListWithin ps qs ∧ group ∈ groups qs ∧ List.Sublist group qs ∧
    clausesOf (group.filter (·.isNegated == negated)) = .ok clauses

/-- A document says of predicates what they say: it has their tests at its leaves, no more, no
less and none with another sign, its boolean queries have their shapes, and its clauses are in
their order. -/
structure Faithful (ps : List Predicate) (q : Json) : Prop where
  leaves : ((signedLeaves false q).map resultOf).Perm (listTests ps)
  shape : ∀ d parts, Within q d → boolParts? d = some parts → NodeShape ps d parts
  /-- A `must` lists clauses in order, or has one clause that joins clauses in order. -/
  mustOrder : ∀ d parts clauses, Within q d → boolParts? d = some parts →
    parts.get? "must" = some (.array clauses) →
    InOrder ps false clauses ∨ ∃ joined, InOrder ps false joined ∧ clauses = [allOf joined]
  mustNotOrder : ∀ d parts clauses, Within q d → boolParts? d = some parts →
    parts.get? "must_not" = some (.array clauses) → InOrder ps true clauses

section Shape

variable {ps qs : List Predicate} {d : Json} {parts : Json.Fields}

theorem inOrder_of_mem_groups (hqs : ListWithin ps qs) (hcomp : ∀ p ∈ qs, Compiles p)
    {group : List Predicate} (hg : group ∈ groups qs) (negated : Bool) :
    InOrder ps negated ((group.filter (·.isNegated == negated)).map clauseOf) := by
  refine ⟨qs, group, hqs, hg, sublist_of_mem_priorityGroups hg, clausesOf_eq_ok ?_⟩
  intro p hp
  exact hcomp p (mem_of_mem_priorityGroups hg (List.mem_filter.mp hp).1)

theorem inOrder_heldClauses (hqs : ListWithin ps qs) (hcomp : ∀ p ∈ qs, Compiles p)
    {group : List Predicate} (hg : group ∈ groups qs) : InOrder ps false (heldClauses group) := by
  simpa [heldClauses] using inOrder_of_mem_groups hqs hcomp hg false

theorem inOrder_deniedClauses (hqs : ListWithin ps qs) (hcomp : ∀ p ∈ qs, Compiles p)
    {group : List Predicate} (hg : group ∈ groups qs) : InOrder ps true (deniedClauses group) := by
  simpa [deniedClauses] using inOrder_of_mem_groups hqs hcomp hg true

theorem joinedClauses_eq (clauses : List Json) :
    joinedClauses clauses = clauses ∨ joinedClauses clauses = [allOf clauses] := by
  unfold joinedClauses
  split
  · exact Or.inl rfl
  · exact Or.inl rfl
  · exact Or.inr rfl

theorem OwnNode.nodeShape (hqs : ListWithin ps qs) (hcomp : ∀ p ∈ qs, Compiles p)
    (h : OwnNode qs d parts) : NodeShape ps d parts := by
  cases h with
  | oneGroup hone =>
    cases hheld : joinedClauses (heldClauses qs) with
    | nil =>
      cases hdenied : deniedClauses qs with
      | nil =>
        rw [eq_nil_of_clauses (joinedClauses_eq_nil_iff.mp hheld) hdenied] at hone
        cases hone
      | cons c denied => exact .mustNot (List.cons_ne_nil c denied)
    | cons c held =>
      cases hdenied : deniedClauses qs with
      | nil => exact .must (List.cons_ne_nil c held)
      | cons c' denied =>
        exact .mustAndMustNot (List.cons_ne_nil c held) (List.cons_ne_nil c' denied)
  | manyGroups hmany =>
    exact .should hqs (query_eq_ok_iff.mpr ⟨hcomp, rfl⟩) hmany (length_groups_le qs)
  | joined hg hne => exact .must hne
  | negated hp hneg => exact .mustNotOne (isLeaf_clauseOf (hcomp _ hp) hneg)

theorem OwnNode.mustOrder (hqs : ListWithin ps qs) (hcomp : ∀ p ∈ qs, Compiles p)
    (h : OwnNode qs d parts) {clauses : List Json}
    (hmust : parts.get? "must" = some (.array clauses)) :
    InOrder ps false clauses ∨ ∃ joined, InOrder ps false joined ∧ clauses = [allOf joined] := by
  cases h with
  | oneGroup hone =>
    have hclauses : joinedClauses (heldClauses qs) = clauses :=
      must_eq_of_get? (boolParts?_of_one_group hone) (boolClauses?_of_one_group hone) hmust
    have horder := inOrder_heldClauses hqs hcomp (mem_groups_of_one_group hone)
    rw [← hclauses]
    rcases joinedClauses_eq (heldClauses qs) with heq | heq
    · rw [heq]
      exact Or.inl horder
    · exact Or.inr ⟨_, horder, heq⟩
  | manyGroups hmany => cases hmust
  | joined hg hne =>
    cases hmust
    exact Or.inl (inOrder_heldClauses hqs hcomp hg)
  | negated hp hneg => cases hmust

theorem OwnNode.mustNotOrder (hqs : ListWithin ps qs) (hcomp : ∀ p ∈ qs, Compiles p)
    (h : OwnNode qs d parts) {clauses : List Json}
    (hmustNot : parts.get? "must_not" = some (.array clauses)) : InOrder ps true clauses := by
  cases h with
  | oneGroup hone =>
    have hclauses : deniedClauses qs = clauses :=
      mustNot_eq_of_get? (boolParts?_of_one_group hone) (boolClauses?_of_one_group hone) hmustNot
    rw [← hclauses]
    exact inOrder_deniedClauses hqs hcomp (mem_groups_of_one_group hone)
  | manyGroups hmany => cases hmustNot
  | joined hg hne => cases hmustNot
  | negated hp hneg =>
    -- the one clause of the part is an object, no array
    obtain ⟨name, body, hleaf, -⟩ := isLeaf_clauseOf (hcomp _ hp) hneg
    rw [hleaf] at hmustNot
    cases hmustNot

end Shape

/-- **No test is lost.** The document of a query state is faithful to its predicates. -/
theorem query_faithful {q : QueryState} {d : Json} (h : query q = .ok d) :
    Faithful q.predicates d := by
  obtain ⟨hps, rfl⟩ := query_eq_ok_iff.mp h
  refine ⟨map_signedLeaves_document hps, ?_, ?_, ?_⟩
  · intro d parts hd hparts
    obtain ⟨qs, hqs, hcomp, hown⟩ := exists_ownNode hps hd hparts
    exact hown.nodeShape hqs hcomp
  · intro d parts clauses hd hparts hmust
    obtain ⟨qs, hqs, hcomp, hown⟩ := exists_ownNode hps hd hparts
    exact hown.mustOrder hqs hcomp hmust
  · intro d parts clauses hd hparts hmustNot
    obtain ⟨qs, hqs, hcomp, hown⟩ := exists_ownNode hps hd hparts
    exact hown.mustNotOrder hqs hcomp hmustNot

theorem query_faithful_staff :
    query staff = .ok staffDocument ∧ Faithful staff.predicates staffDocument :=
  ⟨rfl, query_faithful rfl⟩

end DocSearch.Compile
