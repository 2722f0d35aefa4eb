import DocSearch.Proofs.Changes
import DocSearch.Proofs.ValueShape

/-!
# Setting attributes item by item

A list is set on a query item by item: setting two lists one after the other is setting them as
one, as long as the first is accepted. So a list that is rejected leaves what comes before its first
bad item, and of an item that is an object of sorts what comes before the first bad field. Nothing
else is touched, whatever the value is.

* `Applied.each_eq_stopped`: where the application of items stops.
* `QueryState.stopped_columns`, `QueryState.stopped_wheres`, `QueryState.stopped_orders`: what a bad
  item leaves.
* `QueryState.set_item_by_item`: all of it, for any query.
-/

namespace DocSearch

/-! ## Where setting stops -/

namespace Applied

variable {α : Type} {apply : QueryState → α → Applied} {q r : QueryState} {e : InvalidArgument}

theorem andThen_eq_stopped_iff {first : Applied} {next : QueryState → Applied} :
    first.andThen next = ⟨r, some e⟩ ↔
      first = ⟨r, some e⟩ ∨ ∃ mid, first = accept mid ∧ next mid = ⟨r, some e⟩ := by
  obtain ⟨q, fault⟩ := first
  cases fault <;> simp [andThen, accept]

theorem each_singleton (apply : QueryState → α → Applied) (q : QueryState) (a : α) :
    each apply q [a] = apply q a := by
  rw [each_cons]
  obtain ⟨r, fault⟩ := apply q a
  cases fault <;> rfl

/-- The application of items stops at one that is rejected, after all before it were accepted. -/
theorem each_eq_stopped {items : List α} (h : each apply q items = ⟨r, some e⟩) :
    ∃ before bad after mid, items = before ++ bad :: after ∧
      each apply q before = accept mid ∧ apply mid bad = ⟨r, some e⟩ := by
  induction items generalizing q with
  | nil => cases h
  | cons a items ih =>
    rw [each_cons] at h
    rcases andThen_eq_stopped_iff.mp h with hbad | ⟨next, hnext, hrest⟩
    · exact ⟨[], a, items, q, rfl, rfl, hbad⟩
    · obtain ⟨before, bad, after, mid, rfl, hbefore, hbad⟩ := ih hrest
      refine ⟨a :: before, bad, after, mid, rfl, ?_, hbad⟩
      rw [each_cons, hnext]
      exact hbefore

theorem ofExcept_eq_stopped_iff {value : Except InvalidArgument α}
    {change : QueryState → α → QueryState} :
    ofExcept q value change = ⟨r, some e⟩ ↔ value = .error e ∧ r = q := by
  cases value <;> simp [ofExcept, accept, reject, and_comm, eq_comm]

end Applied

/-- In ascending fields the ones before a field are those with smaller keys. -/
theorem Json.Fields.filter_lt_of_ascending {front back : Json.Fields} {field : String × Json}
    (h : (front ++ field :: back).Ascending) :
    (front ++ field :: back).filter (·.1 < field.1) = front := by
  obtain ⟨-, hback, hfront⟩ := List.pairwise_append.mp h
  have hbefore : ∀ other ∈ front, other.1 < field.1 := fun other hother =>
    hfront other hother field List.mem_cons_self
  have hafter : ∀ other ∈ field :: back, ¬ other.1 < field.1 := by
    intro other hother
    rcases List.mem_cons.mp hother with rfl | hother
    · exact String.lt_irrefl _
    · exact String.lt_asymm ((List.pairwise_cons.mp hback).1 other hother)
  rw [List.filter_append, List.filter_eq_self.mpr (by simpa using hbefore),
    List.filter_eq_nil_iff.mpr (by simpa using hafter), List.append_nil]

/-- The attributes that a list sets item by item. -/
def Attribute.isList : Attribute → Bool
  | .columns | .orders | .wheres => true
  | _ => false

namespace QueryState

open Applied

/-- `Leaves q a bad e r`: a list that sets the attribute `a` and of which `bad` is the first bad
item is rejected with the error `e`, and leaves `r` of the query `q` that the items before it
made. -/
inductive Leaves (q : QueryState) : Attribute → Json → InvalidArgument → QueryState → Prop
  | column {bad : Json} {e : InvalidArgument} (hbad : textFor .columns bad = .error e) :
      Leaves q .columns bad e q
  | predicate {bad : Json} {e : InvalidArgument} (hbad : Predicate.described bad = .error e) :
      Leaves q .wheres bad e q
  | noSorts {bad : Json} (hbad : bad.asObject? = none) :
      Leaves q .orders bad (.unsupported .orders) q
  /-- The fields before the first bad one are declared. -/
  | sorts {front back : Json.Fields} {key : String} {spec : Json} {e : InvalidArgument}
      {r : QueryState} (hfront : q.set .orders (.object front) = .accept r)
      (hbad : sortSpec spec = .error e)
      (hsmaller : (front ++ (key, spec) :: back).Ascending →
        (front ++ (key, spec) :: back).filter (·.1 < key) = front) :
      Leaves q .orders (.object (front ++ (key, spec) :: back)) e r

variable {q r : QueryState} {a : Attribute} {bad value : Json} {items : List Json}
  {e : InvalidArgument}

/-- How one item of a list sets an attribute. -/
def setItem (a : Attribute) (q : QueryState) (item : Json) : Applied := q.set a (.array [item])

theorem setItem_columns : setItem .columns = setColumn :=
  funext fun q => funext fun item => each_singleton setColumn q item

theorem setItem_orders : setItem .orders = setSorts :=
  funext fun q => funext fun item => each_singleton setSorts q item

theorem setItem_wheres : setItem .wheres = setPredicate :=
  funext fun q => funext fun item => each_singleton setPredicate q item

theorem set_array_eq_each (ha : a.isList) (q : QueryState) (items : List Json) :
    q.set a (.array items) = each (setItem a) q items := by
  cases a with
  | columns => rw [setItem_columns, set]
  | orders => rw [setItem_orders, set]
  | wheres => rw [setItem_wheres, set]
  | _ => cases ha

/-! ## What is left -/

theorem leaves_of_setColumn (h : q.setColumn bad = ⟨r, some e⟩) : Leaves q .columns bad e r := by
  obtain ⟨hbad, rfl⟩ := ofExcept_eq_stopped_iff.mp h
  exact .column hbad

theorem leaves_of_setPredicate (h : q.setPredicate bad = ⟨r, some e⟩) :
    Leaves q .wheres bad e r := by
  obtain ⟨hbad, rfl⟩ := ofExcept_eq_stopped_iff.mp h
  exact .predicate hbad

theorem leaves_of_setSorts (h : q.setSorts bad = ⟨r, some e⟩) : Leaves q .orders bad e r := by
  cases bad with
  | object fields =>
    obtain ⟨front, ⟨key, spec⟩, back, mid, rfl, hfront, hfield⟩ := each_eq_stopped h
    obtain ⟨hbad, rfl⟩ := ofExcept_eq_stopped_iff.mp hfield
    exact .sorts hfront hbad Json.Fields.filter_lt_of_ascending
  | _ =>
    cases h
    exact .noSorts rfl

theorem leaves_of_setItem (ha : a.isList) (h : setItem a q bad = ⟨r, some e⟩) :
    Leaves q a bad e r := by
  cases a with
  | columns => exact leaves_of_setColumn (setItem_columns ▸ h)
  | orders => exact leaves_of_setSorts (setItem_orders ▸ h)
  | wheres => exact leaves_of_setPredicate (setItem_wheres ▸ h)
  | _ => cases ha

theorem exists_leaves (ha : a.isList) (h : q.set a (.array items) = ⟨r, some e⟩) :
    ∃ before bad after mid, items = before ++ bad :: after ∧
      q.set a (.array before) = .accept mid ∧ mid.set a (.array [bad]) = ⟨r, some e⟩ ∧
      Leaves mid a bad e r := by
  rw [set_array_eq_each ha] at h
  obtain ⟨before, bad, after, mid, hitems, hbefore, hbad⟩ := each_eq_stopped h
  refine ⟨before, bad, after, mid, hitems, ?_, hbad, leaves_of_setItem ha hbad⟩
  rw [set_array_eq_each ha]
  exact hbefore

theorem set_append (ha : a.isList) (q : QueryState) (items others : List Json) :
    q.set a (.array (items ++ others)) =
      (q.set a (.array items)).andThen fun r => r.set a (.array others) := by
  simp only [set_array_eq_each ha]
  exact each_append (setItem a) q items others

/-- A value that has no items is rejected as a whole. -/
theorem eq_of_set_eq_stopped (hlist : a.isList → value.asArray? = none)
    (hobject : a = .orders → value.asObject? = none) (h : q.set a value = ⟨r, some e⟩) : r = q := by
  cases a with
  | columns =>
    cases value with
    | array items => cases hlist rfl
    | text column => cases h
    | _ =>
      cases h
      rfl
  | orders =>
    cases value with
    | array items => cases hlist rfl
    | object fields => cases hobject rfl
    | _ =>
      cases h
      rfl
  | wheres =>
    cases value with
    | array items => cases hlist rfl
    | _ =>
      cases h
      rfl
  | aggregations =>
    cases value with
    | object fields => cases h
    | _ =>
      cases h
      rfl
  | _ => exact (ofExcept_eq_stopped_iff.mp h).2

/-- **Attributes are set item by item.** Setting the columns, sorts or predicates to a list is
setting them to its first items and then, unless one of those is rejected, to the others; a text
stands for the list of one column, an object for the list of one item of sorts. If the list is
rejected, then all items before the first bad one have been set, and nothing of that one, unless it
is an object of sorts, of which the fields with smaller keys than the first bad one have been. A
rejected value of any other attribute leaves the query as it was, as does one of these that has no
items. No value of an attribute, accepted or not, touches the other eight. -/
theorem set_item_by_item (q : QueryState) :
    (∀ a : Attribute, a.isList → ∀ items others,
        q.set a (.array (items ++ others)) =
          (q.set a (.array items)).andThen fun r => r.set a (.array others)) ∧
      (∀ column, q.set .columns (.text column) = q.set .columns (.array [.text column])) ∧
      (∀ fields, q.set .orders (.object fields) = q.set .orders (.array [.object fields])) ∧
      (∀ a : Attribute, a.isList → ∀ items r e, q.set a (.array items) = ⟨r, some e⟩ →
        ∃ before bad after mid, items = before ++ bad :: after ∧
          q.set a (.array before) = .accept mid ∧ mid.set a (.array [bad]) = ⟨r, some e⟩ ∧
          Leaves mid a bad e r) ∧
      (∀ (a : Attribute) (value : Json), (a.isList → value.asArray? = none) →
        (a = .orders → value.asObject? = none) → ∀ r e, q.set a value = ⟨r, some e⟩ → r = q) ∧
      ∀ a b : Attribute, b ≠ a → ∀ value, (q.set a value).state.SameAt q b := by
  refine ⟨fun a ha => set_append ha q, fun column => rfl, fun fields => ?_, ?_, ?_, ?_⟩
  · exact (each_singleton setSorts q (.object fields)).symm
  · intro a ha items r e h
    exact exists_leaves ha h
  · intro a value hlist hobject r e h
    exact eq_of_set_eq_stopped hlist hobject h
  · intro a b hb value
    exact sameAt_set hb q value

/-- A list of predicates of which the second has a fault two lists deep, and one of sorts with a
direction that is none. -/
theorem set_item_by_item_faulty :
    let adult : Json := .object
      [("column", .text "age"), ("operator", .text ">="), ("value", .count 18)]
    let faulty : Json := .object
      [("nested", .array [adult, .object [("nested", .array [.count 5])]])]
    let ascending : Json := .single "order" (.text "asc")
    let sorts : Json.Fields := [("age", ascending), ("name", .text "up"), ("zip", ascending)]
    let adults : QueryState :=
      { index := some "users", predicates := [.basic "age" .range (some .gte) (.count 18) .and] }
    let sorted : QueryState := { index := some "users", sorts := [("age", ascending)] }
    let q := forIndex "users"
    (q.set .wheres (.array [adult, faulty, adult]) = ⟨adults, some (.unsupported .wheres)⟩ ∧
        ∃ before bad after mid, [adult, faulty, adult] = before ++ bad :: after ∧
          q.set .wheres (.array before) = .accept mid ∧
          Leaves mid .wheres bad (.unsupported .wheres) adults) ∧
      sorts.Ascending ∧
      q.set .orders (.array [.object sorts, adult]) = ⟨sorted, some (.unknown "up")⟩ ∧
      ∃ before bad after mid, [.object sorts, adult] = before ++ bad :: after ∧
        q.set .orders (.array before) = .accept mid ∧
        Leaves mid .orders bad (.unknown "up") sorted := by
  intro adult faulty ascending sorts adults sorted q
  obtain ⟨-, -, -, hstops, -⟩ := set_item_by_item q
  have hwheres : q.set .wheres (.array [adult, faulty, adult]) =
      ⟨adults, some (.unsupported .wheres)⟩ := rfl
  have horders : q.set .orders (.array [.object sorts, adult]) =
      ⟨sorted, some (.unknown "up")⟩ := by
    -- The name is compared in small letters, which only the kernel computes.
    have hname : SortDirection.ofName? "up" = none := by decide +kernel
    have hup : sortSpec (.text "up") = .error (.unknown "up") := by
      rw [sortSpec, SortDirection.of, hname]
      rfl
    simp only [set, each_cons, setSorts, sorts, setSort, hup]
    rfl
  obtain ⟨before, bad, after, mid, hitems, hbefore, -, hleaves⟩ := hstops .wheres rfl _ _ _ hwheres
  obtain ⟨front, other, back, next, hsorts, hfront, -, hleft⟩ := hstops .orders rfl _ _ _ horders
  exact ⟨⟨hwheres, before, bad, after, mid, hitems, hbefore, hleaves⟩, by decide, horders,
    front, other, back, next, hsorts, hfront, hleft⟩

end QueryState

end DocSearch
