import DocSearch.Proofs.Fields
import DocSearch.Proofs.Results
import DocSearch.Query.Description
import DocSearch.Query.Filters

/-!
# Predicate descriptions

Which JSON values describe a predicate (`WellFormed`), and which predicate each of them describes
(`Describes`), said of the fields of a description and apart from how they are read.

* `described_eq_ok_iff`: reading a description gives the predicate that it describes.
* `exists_describes_iff`: the well-formed descriptions are those that describe a predicate.
* `predicates_set`: setting the predicates of a query accepts the lists of well-formed
  descriptions, and adds what they describe.
* `not_predicates_set_loosely`: a description with a field `nested` is never read as a test.
-/

namespace DocSearch

/-! ## Names -/

/-- A look-up that finds every member under its name accepts the names alone. -/
theorem known_find?_eq_ok_iff {α : Type} {all : List α} {name : α → String}
    (hall : ∀ a, all.find? (fun b => name b = name a) = some a) {text : String} {a : α} :
    InvalidArgument.known text (all.find? fun b => name b = text) = .ok a ↔ text = name a := by
  constructor
  · intro h
    cases hfind : all.find? fun b => name b = text with
    | none =>
      rw [hfind] at h
      cases h
    | some b =>
      rw [hfind] at h
      cases h
      have hname := List.find?_some hfind
      exact (of_decide_eq_true hname).symm
  · rintro rfl
    rw [hall a]
    rfl

theorem Conjunction.of_eq_ok_iff {text : String} {joined : Conjunction} :
    Conjunction.of text = .ok joined ↔ text = joined.name :=
  known_find?_eq_ok_iff fun joined => by cases joined <;> rfl

theorem LeafKind.of_eq_ok_iff {text : String} {leaf : LeafKind} :
    LeafKind.of text = .ok leaf ↔ text = leaf.name :=
  known_find?_eq_ok_iff fun leaf => by cases leaf <;> rfl

theorem Operator.of_eq_ok_iff {text : String} {operator : Operator} :
    Operator.of text = .ok operator ↔ text = operator.symbol :=
  known_find?_eq_ok_iff fun operator => by cases operator <;> rfl

/-! ## What the fields of a description say -/

namespace Description

variable {fields : Json.Fields} {joined : Conjunction} {leaf : LeafKind}
  {operator : Option Operator} {column : String} {item value : Json} {p : Predicate}

/-- The predicate is joined by AND unless the field `boolean` names a conjunction. -/
def Joins (fields : Json.Fields) (joined : Conjunction) : Prop :=
  fields.get? "boolean" = none ∧ joined = .and ∨
    fields.get? "boolean" = some (.text joined.name)

/-- The test is a term unless the field `leaf` names a kind. -/
def HasKind (fields : Json.Fields) (leaf : LeafKind) : Prop :=
  fields.get? "leaf" = none ∧ leaf = .term ∨ fields.get? "leaf" = some (.text leaf.name)

/-- Without a field `operator` a term compares for equality and another test has no operator; null
stands for none. -/
def HasOperator (fields : Json.Fields) (leaf : LeafKind) (operator : Option Operator) : Prop :=
  fields.get? "operator" = none ∧ operator = (if leaf = .term then some .eq else none) ∨
    fields.get? "operator" = some .null ∧ operator = none ∨
    ∃ named : Operator,
      fields.get? "operator" = some (.text named.symbol) ∧ operator = some named

/-- The fields of a test. -/
structure IsTest (fields : Json.Fields) (column : String) (leaf : LeafKind)
    (operator : Option Operator) : Prop where
  column_eq : fields.get? "column" = some (.text column)
  kind : HasKind fields leaf
  operator : HasOperator fields leaf operator

/-- The value of a test, null if there is none. -/
def valueOf (fields : Json.Fields) : Json := (fields.get? "value").getD .null

/-- The kind that a test comes to have: an operator that bounds its column makes it a range. -/
def effectiveKind (operator : Option Operator) (leaf : LeafKind) : LeafKind :=
  if operator.any Operator.isBound then .range else leaf

/-- The values of a range are two if they are listed. -/
def BoundsGiven (fields : Json.Fields) (operator : Option Operator) (leaf : LeafKind) : Prop :=
  effectiveKind operator leaf = .range →
    ∀ bounds, fields.get? "value" = some (.array bounds) → bounds.length = 2

/-- The descriptions that are accepted. One with a field `nested` is that of a nested query, of
which all other fields but `boolean` are ignored. -/
inductive WellFormed : Json → Prop
  | nested {fields : Json.Fields} {joined : Conjunction} {items : List Json}
      (hjoined : Joins fields joined) (hnested : fields.get? "nested" = some (.array items))
      (hitems : ∀ item ∈ items, WellFormed item) : WellFormed (.object fields)
  | test {fields : Json.Fields} {joined : Conjunction} {column : String} {leaf : LeafKind}
      {operator : Option Operator} (hjoined : Joins fields joined)
      (hunnested : fields.get? "nested" = none) (htest : IsTest fields column leaf operator)
      (hbounds : BoundsGiven fields operator leaf) : WellFormed (.object fields)

/-- The descriptions of which either the field `nested` or the fields of a test are in order,
whatever the others are. -/
inductive LooselyFormed : Json → Prop
  | nested {fields : Json.Fields} {joined : Conjunction} {items : List Json}
      (hjoined : Joins fields joined) (hnested : fields.get? "nested" = some (.array items))
      (hitems : ∀ item ∈ items, LooselyFormed item) : LooselyFormed (.object fields)
  | test {fields : Json.Fields} {joined : Conjunction} {column : String} {leaf : LeafKind}
      {operator : Option Operator} (hjoined : Joins fields joined)
      (htest : IsTest fields column leaf operator)
      (hbounds : BoundsGiven fields operator leaf) : LooselyFormed (.object fields)

/-- `Describes item p`: the description `item` is that of the predicate `p`. -/
inductive Describes : Json → Predicate → Prop
  | nested {fields : Json.Fields} {joined : Conjunction} {items : List Json}
      {members : List Predicate} (hjoined : Joins fields joined)
      (hnested : fields.get? "nested" = some (.array items))
      (hmembers : List.Forall₂ Describes items members) :
      Describes (.object fields) (.nested {} members joined)
  | test {fields : Json.Fields} {joined : Conjunction} {column : String} {leaf : LeafKind}
      {operator : Option Operator} {p : Predicate} (hjoined : Joins fields joined)
      (hunnested : fields.get? "nested" = none) (htest : IsTest fields column leaf operator)
      (hp : Predicate.comparison column operator (valueOf fields) leaf joined = .ok p) :
      Describes (.object fields) p

/-- Induction on descriptions: a nested query may assume the statement for each item of its
list. -/
@[elab_as_elim]
theorem induction {motive : Json → Prop}
    (object : ∀ fields : Json.Fields,
      (∀ items, fields.get? "nested" = some (.array items) → ∀ item ∈ items, motive item) →
        motive (.object fields))
    (other : ∀ item : Json, (∀ fields, item ≠ .object fields) → motive item) :
    ∀ item, motive item
  | .object fields =>
    object fields fun items hnested item hitem => Description.induction object other item
  | .null => other _ (by simp)
  | .bool _ => other _ (by simp)
  | .number _ => other _ (by simp)
  | .text _ => other _ (by simp)
  | .array _ => other _ (by simp)
termination_by item => sizeOf item
decreasing_by
  have hfield := List.sizeOf_lt_of_mem (Json.Fields.mem_of_get? hnested)
  have hlt := List.sizeOf_lt_of_mem hitem
  simp only [Prod.mk.sizeOf_spec, Json.array.sizeOf_spec] at hfield
  simp only [Json.object.sizeOf_spec]
  omega

/-! ## Reading the fields -/

theorem describedJoin_eq_ok_iff :
    Predicate.describedJoin fields = .ok joined ↔ Joins fields joined := by
  rw [Predicate.describedJoin, Joins]
  cases fields.get? "boolean" with
  | none => simp [eq_comm]
  | some value => cases value <;> simp [Conjunction.of_eq_ok_iff]

theorem describedLeaf_eq_ok_iff :
    Predicate.describedLeaf fields = .ok leaf ↔ HasKind fields leaf := by
  rw [Predicate.describedLeaf, HasKind]
  cases fields.get? "leaf" with
  | none => simp [eq_comm]
  | some value => cases value <;> simp [LeafKind.of_eq_ok_iff]

theorem describedOperator_eq_ok_iff :
    Predicate.describedOperator fields leaf = .ok operator ↔ HasOperator fields leaf operator := by
  rw [Predicate.describedOperator, HasOperator]
  cases fields.get? "operator" with
  | none => simp [eq_comm]
  | some value =>
    cases value with
    | null => simp [eq_comm]
    | text symbol =>
      have hmap : (Operator.of symbol).map some = .ok operator ↔
          ∃ named, Operator.of symbol = .ok named ∧ some named = operator := map_eq_ok_iff
      simp only [hmap, Operator.of_eq_ok_iff]
      simp [eq_comm]
    | _ => simp

theorem describedColumn_eq_ok_iff :
    Predicate.describedColumn fields = .ok column ↔
      fields.get? "column" = some (.text column) := by
  rw [Predicate.describedColumn]
  cases fields.get? "column" with
  | none => simp
  | some value => cases value <;> simp [Json.asText?]

theorem describedTest_eq_ok_iff :
    Predicate.describedTest fields joined = .ok p ↔
      ∃ column leaf operator, fields.get? "column" = some (.text column) ∧
        HasKind fields leaf ∧ HasOperator fields leaf operator ∧
        Predicate.comparison column operator (valueOf fields) leaf joined = .ok p := by
  simp only [Predicate.describedTest, bind_eq_ok_iff, describedColumn_eq_ok_iff,
    describedLeaf_eq_ok_iff, describedOperator_eq_ok_iff, valueOf, exists_and_left]

theorem describedNesting_eq :
    Predicate.describedNesting fields = (fields.get? "nested").map Predicate.describedMembers := by
  induction fields with
  | nil => rfl
  | cons field fields ih =>
    obtain ⟨key, value⟩ := field
    rw [Predicate.describedNesting, Json.Fields.get?_cons]
    by_cases h : key = "nested"
    · rw [if_pos h, if_pos h.symm]
      rfl
    · rw [if_neg h, if_neg (Ne.symm h)]
      exact ih

theorem describedItems_eq_mapM (items : List Json) :
    Predicate.describedItems items = items.mapM Predicate.described := by
  induction items with
  | nil => rfl
  | cons item items ih => rw [Predicate.describedItems, List.mapM_cons, ih]

theorem describedMembers_eq_ok_iff {members : List Predicate} :
    Predicate.describedMembers value = .ok members ↔ ∃ items, value = .array items ∧
      List.Forall₂ (fun item p => Predicate.described item = .ok p) items members := by
  cases value <;> simp [Predicate.describedMembers, describedItems_eq_mapM, mapM_eq_ok_iff]

/-! ## Reading a description -/

theorem described_object_eq_ok_iff :
    Predicate.described (.object fields) = .ok p ↔
      ∃ joined, Joins fields joined ∧
        ((∃ items members, fields.get? "nested" = some (.array items) ∧
            List.Forall₂ (fun item p => Predicate.described item = .ok p) items members ∧
            p = .nested {} members joined) ∨
          fields.get? "nested" = none ∧ Predicate.describedTest fields joined = .ok p) := by
  simp only [Predicate.described, bind_eq_ok_iff, describedJoin_eq_ok_iff, describedNesting_eq]
  refine exists_congr fun joined => and_congr_right fun _ => ?_
  cases fields.get? "nested" with
  | none => simp
  | some value =>
    simp only [Option.map_some, bind_eq_ok_iff, describedMembers_eq_ok_iff]
    constructor
    · rintro ⟨members, ⟨items, rfl, hmembers⟩, hp⟩
      cases hp
      exact Or.inl ⟨items, members, rfl, hmembers, rfl⟩
    · rintro (⟨items, members, hnested, hmembers, rfl⟩ | ⟨hnone, -⟩)
      · cases hnested
        exact ⟨members, ⟨items, rfl, hmembers⟩, rfl⟩
      · cases hnone

/-- Reading a description succeeds with the predicate that it describes. -/
theorem described_eq_ok_iff : Predicate.described item = .ok p ↔ Describes item p := by
  induction item using Description.induction generalizing p with
  | other item hitem =>
    cases item with
    | object fields => exact absurd rfl (hitem fields)
    | _ =>
      constructor
      · intro h
        cases h
      · intro h
        cases h
  | object fields ih =>
    rw [described_object_eq_ok_iff]
    constructor
    · rintro ⟨joined, hjoined, ⟨items, members, hnested, hmembers, rfl⟩ | ⟨hnested, htest⟩⟩
      · exact .nested hjoined hnested ((forall₂_congr_of_mem fun item hitem _ =>
          ih items hnested item hitem).mp hmembers)
      · obtain ⟨column, leaf, operator, hcolumn, hkind, hoperator, hp⟩ :=
          describedTest_eq_ok_iff.mp htest
        exact .test hjoined hnested ⟨hcolumn, hkind, hoperator⟩ hp
    · intro h
      cases h with
      | @nested _ joined items members hjoined hnested hmembers =>
        refine ⟨joined, hjoined, Or.inl ⟨items, members, hnested, ?_, rfl⟩⟩
        exact (forall₂_congr_of_mem fun item hitem _ => ih items hnested item hitem).mpr hmembers
      | @test _ joined column leaf operator _ hjoined hunnested htest hp =>
        refine ⟨joined, hjoined, Or.inr ⟨hunnested, describedTest_eq_ok_iff.mpr ?_⟩⟩
        exact ⟨column, leaf, operator, htest.column_eq, htest.kind, htest.operator, hp⟩

/-! ## The descriptions that are accepted -/

theorem exists_comparison_iff :
    (∃ p, Predicate.comparison column operator value leaf joined = .ok p) ↔
      (effectiveKind operator leaf = .range →
        ∀ bounds, value = .array bounds → bounds.length = 2) := by
  unfold Predicate.comparison effectiveKind
  generalize (if operator.any Operator.isBound then LeafKind.range else leaf) = kind
  dsimp only
  split
  · rename_i low high
    refine iff_of_true ⟨_, rfl⟩ ?_
    rintro - bounds hbounds
    cases hbounds
    rfl
  · rename_i bounds hbounds
    refine iff_of_false (by simp) ?_
    intro h
    obtain ⟨low, high, rfl⟩ := List.length_eq_two.mp (h rfl bounds rfl)
    exact hbounds low high rfl
  · rename_i hother
    refine iff_of_true ⟨_, rfl⟩ ?_
    rintro rfl bounds rfl
    exact absurd rfl (hother bounds rfl)

theorem valueOf_eq_array_iff {bounds : List Json} :
    valueOf fields = .array bounds ↔ fields.get? "value" = some (.array bounds) := by
  rw [valueOf]
  cases fields.get? "value" <;> simp

/-- The well-formed descriptions are those that describe a predicate. -/
theorem exists_describes_iff : (∃ p, Describes item p) ↔ WellFormed item := by
  constructor
  · rintro ⟨p, h⟩
    induction item using Description.induction generalizing p with
    | other item hitem =>
      cases h with
      | nested => exact absurd rfl (hitem _)
      | test => exact absurd rfl (hitem _)
    | object fields ih =>
      cases h with
      | @nested _ joined items members hjoined hnested hmembers =>
        refine .nested hjoined hnested fun item hitem => ?_
        obtain ⟨p, hp⟩ := exists_of_forall₂ hmembers hitem
        exact ih items hnested item hitem p hp
      | test hjoined hunnested htest hp =>
        refine .test hjoined hunnested htest fun hkind bounds hbounds => ?_
        exact exists_comparison_iff.mp ⟨p, hp⟩ hkind bounds (valueOf_eq_array_iff.mpr hbounds)
  · intro h
    induction h with
    | nested hjoined hnested _ ih =>
      obtain ⟨members, hmembers⟩ := exists_forall₂ ih
      exact ⟨_, .nested hjoined hnested hmembers⟩
    | test hjoined hunnested htest hbounds =>
      obtain ⟨p, hp⟩ := exists_comparison_iff.mpr fun hkind bounds hvalue =>
        hbounds hkind bounds (valueOf_eq_array_iff.mp hvalue)
      exact ⟨p, .test hjoined hunnested htest hp⟩

end Description

/-! ## Setting the predicates of a query -/

namespace QueryState

open Description

variable {q after : QueryState} {items : List Json}

theorem setPredicate_eq_accept_iff {item : Json} :
    q.setPredicate item = .accept after ↔
      ∃ p, Predicate.described item = .ok p ∧ after = q.filter p := by
  unfold setPredicate Applied.ofExcept
  cases Predicate.described item with
  | error e => simp [Applied.reject, Applied.accept]
  | ok p => simp [Applied.accept, eq_comm]

theorem each_cons_eq_accept_iff {α : Type} {apply : QueryState → α → Applied} {a : α}
    {rest : List α} :
    Applied.each apply q (a :: rest) = .accept after ↔
      ∃ next, apply q a = .accept next ∧ Applied.each apply next rest = .accept after := by
  rw [Applied.each]
  rcases apply q a with ⟨next, fault⟩
  cases fault with
  | none => simp [Applied.accept]
  | some e => simp [Applied.accept]

theorem each_setPredicate_eq_accept_iff :
    Applied.each setPredicate q items = .accept after ↔
      ∃ ps, List.Forall₂ Describes items ps ∧
        after = { q with predicates := q.predicates ++ ps } := by
  induction items generalizing q with
  | nil => simp [Applied.each, Applied.accept, eq_comm]
  | cons item items ih =>
    simp only [each_cons_eq_accept_iff, setPredicate_eq_accept_iff, ih, described_eq_ok_iff]
    constructor
    · rintro ⟨next, ⟨p, hp, rfl⟩, ps, hps, rfl⟩
      refine ⟨p :: ps, .cons hp hps, ?_⟩
      simp [filter]
    · rintro ⟨members, hmembers, rfl⟩
      obtain ⟨p, ps, hp, hps, rfl⟩ := List.forall₂_cons_left_iff.mp hmembers
      refine ⟨q.filter p, ⟨p, hp, rfl⟩, ps, hps, ?_⟩
      simp [filter]

theorem set_wheres_eq_accept_iff {value : Json} :
    q.set .wheres value = .accept after ↔
      ∃ items ps, value = .array items ∧ List.Forall₂ Describes items ps ∧
        after = { q with predicates := q.predicates ++ ps } := by
  cases value with
  | array items => simp [set, each_setPredicate_eq_accept_iff]
  | _ => simp [set, Applied.reject, Applied.accept]

/-- What an item describes, in terms of declarations: a nested list stands for the query that it is
set on, and a test with an operator for the comparison that a caller declares. -/
theorem describes_object_iff {fields : Json.Fields} {p : Predicate} :
    Describes (.object fields) p ↔
      ∃ joined, Joins fields joined ∧
        ((∃ items inner, fields.get? "nested" = some (.array items) ∧
            ({} : QueryState).set .wheres (.array items) = .accept inner ∧
            p = .ofQuery inner joined) ∨
          ∃ column leaf operator, fields.get? "nested" = none ∧
            IsTest fields column leaf operator ∧
            Predicate.comparison column operator (valueOf fields) leaf joined = .ok p ∧
            ∀ named ∈ operator, Predicate.compared joined column named (valueOf fields) leaf =
              .ok p) := by
  constructor
  · intro h
    cases h with
    | @nested _ joined items members hjoined hnested hmembers =>
      have hset : ({} : QueryState).set .wheres (.array items) =
          .accept { predicates := members } :=
        set_wheres_eq_accept_iff.mpr ⟨items, members, rfl, hmembers, rfl⟩
      exact ⟨joined, hjoined, Or.inl ⟨items, _, hnested, hset, rfl⟩⟩
    | @test _ joined column leaf operator _ hjoined hunnested htest hp =>
      refine ⟨joined, hjoined, Or.inr ⟨column, leaf, operator, hunnested, htest, hp, ?_⟩⟩
      rintro named ⟨⟩
      exact hp
  · rintro ⟨joined, hjoined, ⟨items, inner, hnested, hset, rfl⟩ |
      ⟨column, leaf, operator, hunnested, htest, hp, -⟩⟩
    · obtain ⟨_, members, hitems, hmembers, rfl⟩ := set_wheres_eq_accept_iff.mp hset
      cases hitems
      exact .nested hjoined hnested hmembers
    · exact .test hjoined hunnested htest hp

/-- A field `nested` that is no list spoils a description, though the fields beside it be those of
a test. -/
theorem not_predicates_set_loosely :
    ¬ ∀ (q : QueryState) (value : Json),
      (∃ after, q.set .wheres value = .accept after) ↔
        ∃ items, value = .array items ∧ ∀ item ∈ items, LooselyFormed item := by
  intro h
  let fields : Json.Fields := [("column", .text "age"), ("nested", .count 5), ("value", .count 18)]
  have htest : IsTest fields "age" .term (some .eq) :=
    ⟨rfl, Or.inl ⟨rfl, rfl⟩, Or.inl ⟨rfl, rfl⟩⟩
  have hloose : LooselyFormed (.object fields) := by
    refine .test (Or.inl ⟨rfl, rfl⟩) htest ?_
    intro hkind
    cases hkind
  obtain ⟨after, hafter⟩ := (h {} (.array [.object fields])).mpr
    ⟨_, rfl, fun item hitem => List.mem_singleton.mp hitem ▸ hloose⟩
  cases hafter

/-- **Predicate descriptions.** Setting the predicates of a query accepts exactly the lists of
well-formed descriptions. It adds, in order, the predicate that each of them describes: for a test
the one that its column, operator, value and kind stand for, which is the one that a caller
declares with the operator if there is one; for a nested list the query that has the predicates of
that list, as one predicate. -/
theorem predicates_set (q : QueryState) (value : Json) :
    ((∃ after, q.set .wheres value = .accept after) ↔
      ∃ items, value = .array items ∧ ∀ item ∈ items, WellFormed item) ∧
    (∀ after, q.set .wheres value = .accept after ↔
      ∃ items ps, value = .array items ∧ List.Forall₂ Describes items ps ∧
        after = { q with predicates := q.predicates ++ ps }) ∧
    ∀ (fields : Json.Fields) p, Describes (.object fields) p ↔
      ∃ joined, Joins fields joined ∧
        ((∃ items inner, fields.get? "nested" = some (.array items) ∧
            ({} : QueryState).set .wheres (.array items) = .accept inner ∧
            p = .ofQuery inner joined) ∨
          ∃ column leaf operator, fields.get? "nested" = none ∧
            IsTest fields column leaf operator ∧
            Predicate.comparison column operator (valueOf fields) leaf joined = .ok p ∧
            ∀ named ∈ operator, Predicate.compared joined column named (valueOf fields) leaf =
              .ok p) := by
  refine ⟨?_, fun after => set_wheres_eq_accept_iff, fun fields p => describes_object_iff⟩
  constructor
  · rintro ⟨after, h⟩
    obtain ⟨items, ps, hvalue, hps, -⟩ := set_wheres_eq_accept_iff.mp h
    refine ⟨items, hvalue, fun item hitem => ?_⟩
    exact exists_describes_iff.mp (exists_of_forall₂ hps hitem)
  · rintro ⟨items, hvalue, hitems⟩
    have hdescribe : ∀ item ∈ items, ∃ p, Describes item p := by
      intro item hitem
      exact exists_describes_iff.mpr (hitems item hitem)
    obtain ⟨ps, hps⟩ := exists_forall₂ hdescribe
    exact ⟨_, set_wheres_eq_accept_iff.mpr ⟨items, ps, hvalue, hps, rfl⟩⟩

/-- A nested list beside a field that is ignored, with a test of a kind that is made a range. -/
theorem predicates_set_nested :
    let adults : Json := .object
      [("column", .text "age"), ("operator", .text ">="), ("value", .count 18)]
    let item : Json := .object
      [("boolean", .text "or"), ("leaf", .text "no kind"), ("nested", .array [adults])]
    let adult : Predicate := .basic "age" .range (some .gte) (.count 18) .and
    let after : QueryState :=
      { index := some "users", predicates := [.nested {} [adult] .or] }
    QueryState.set (.forIndex "users") .wheres (.array [item]) = .accept after ∧
      WellFormed item ∧ Describes item (.nested {} [adult] .or) := by
  intro adults item adult after
  obtain ⟨haccepted, hadded, -⟩ := predicates_set (.forIndex "users") (.array [item])
  have hset : QueryState.set (.forIndex "users") .wheres (.array [item]) = .accept after := rfl
  obtain ⟨items, hitems, hwell⟩ := haccepted.mp ⟨after, hset⟩
  cases hitems
  obtain ⟨items, ps, hitems, hps, hafter⟩ := (hadded after).mp hset
  cases hitems
  obtain rfl : [.nested {} [adult] .or] = ps := congrArg QueryState.predicates hafter
  cases hps with
  | cons hitem _ => exact ⟨hset, hwell item List.mem_cons_self, hitem⟩

end QueryState

end DocSearch
