import DocSearch.Proofs.Changes
import DocSearch.Proofs.Targets

/-!
# Columns, sorts and aggregations that are declared again

Whatever is declared on a query, its columns are those that were added, each once and in the order
in which they first were. Sorts and aggregations are kept likewise, each with the specification that
was given last. So the list of sorts and the object of aggregations in a request have one member for
each of them.

* `foldl_addNew`, `keepsLatest_foldl`: what is left of members and entries that are added.
* `Change.view_foldl`: what changes make of one part of a query.
* `Declaration.foldl_apply_eq`: the changes that declarations come to.
* `redeclared_kept_once`: all of it, for any declarations on a fresh query.
-/

namespace DocSearch

/-! ## Lists without duplicates -/

section Lists

variable {α : Type} [DecidableEq α] {kept : List α} {a : α}

/-- Adds a member to a list unless it is there. -/
def addNew (kept : List α) (a : α) : List α := if a ∈ kept then kept else kept ++ [a]

theorem nodup_addNew (h : kept.Nodup) : (addNew kept a).Nodup := by
  unfold addNew
  split
  · exact h
  · rename_i hnew
    exact (List.perm_append_singleton a kept).nodup_iff.mpr (List.nodup_cons.mpr ⟨hnew, h⟩)

theorem eraseDups_concat (l : List α) (a : α) : (l ++ [a]).eraseDups = addNew l.eraseDups a := by
  rw [List.eraseDups_append, List.removeAll, addNew]
  simp only [List.mem_eraseDups]
  by_cases h : a ∈ l <;> simp [h, List.eraseDups_cons]

theorem nodup_eraseDups (l : List α) : l.eraseDups.Nodup := by
  induction l using List.reverseRecOn with
  | nil => exact .nil
  | append_singleton l a ih =>
    rw [eraseDups_concat]
    exact nodup_addNew ih

theorem foldl_addNew (l : List α) : l.foldl addNew [] = l.eraseDups := by
  induction l using List.reverseRecOn with
  | nil => rfl
  | append_singleton l a ih => rw [List.foldl_concat, ih, eraseDups_concat]

end Lists

section Upsert

variable {kept entries : List (String × Json)}

theorem map_fst_upsert (key : String) (value : Json) (kept : List (String × Json)) :
    (upsert key value kept).map Prod.fst = addNew (kept.map Prod.fst) key := by
  induction kept with
  | nil => rfl
  | cons entry kept ih =>
    obtain ⟨k, v⟩ := entry
    rw [upsert]
    by_cases hk : k = key
    · simp [addNew, hk]
    · have hkey : key ∈ ((k, v) :: kept).map Prod.fst ↔ key ∈ kept.map Prod.fst := by
        simp [Ne.symm hk]
      rw [if_neg hk, List.map_cons, ih]
      simp only [addNew, hkey]
      split <;> rfl

theorem lookup_upsert (key name : String) (value : Json) (kept : List (String × Json)) :
    (upsert key value kept).lookup name =
      if name = key then some value else kept.lookup name := by
  induction kept with
  | nil => exact lookup_cons_eq name (key, value) []
  | cons entry kept ih =>
    rw [upsert]
    by_cases hk : entry.1 = key
    · rw [if_pos hk, lookup_cons_eq, lookup_cons_eq, hk]
      split <;> rfl
    · rw [if_neg hk, lookup_cons_eq, lookup_cons_eq, ih]
      by_cases hname : name = key
      · rw [if_pos hname, if_pos hname, if_neg (hname ▸ Ne.symm hk)]
      · rw [if_neg hname, if_neg hname]

/-- `KeepsLatest kept entries`: of all entries with one key one is kept, in the place of the first
and with the value of the last. -/
structure KeepsLatest (kept entries : List (String × Json)) : Prop where
  keys_eq : kept.map Prod.fst = (entries.map Prod.fst).eraseDups
  lookup_eq : ∀ key, kept.lookup key = entries.reverse.lookup key

theorem KeepsLatest.nodup (h : KeepsLatest kept entries) : (kept.map Prod.fst).Nodup := by
  rw [h.keys_eq]
  exact nodup_eraseDups _

/-- Gives the key of an entry its value. -/
def putEntry (kept : List (String × Json)) (entry : String × Json) : List (String × Json) :=
  upsert entry.1 entry.2 kept

theorem KeepsLatest.putEntry (h : KeepsLatest kept entries) (entry : String × Json) :
    KeepsLatest (putEntry kept entry) (entries ++ [entry]) := by
  constructor
  · rw [DocSearch.putEntry, map_fst_upsert, h.keys_eq, List.map_append, List.map_singleton,
      eraseDups_concat]
  · intro name
    rw [DocSearch.putEntry, lookup_upsert, h.lookup_eq, List.reverse_concat, lookup_cons_eq]

theorem keepsLatest_foldl (entries : List (String × Json)) :
    KeepsLatest (entries.foldl putEntry []) entries := by
  induction entries using List.reverseRecOn with
  | nil => exact ⟨rfl, fun _ => rfl⟩
  | append_singleton entries entry ih =>
    rw [List.foldl_concat]
    exact ih.putEntry entry

end Upsert

/-! ## What changes make of the lists -/

namespace Change

variable {α β : Type}

/-- The column that a change adds. -/
def column? : Change → Option String
  | .column name => some name
  | _ => none

/-- The sort that a change declares. -/
def sort? : Change → Option (String × Json)
  | .sort field spec => some (field, spec)
  | _ => none

/-- The aggregation that a change declares. -/
def aggregation? : Change → Option (String × Json)
  | .aggregation name spec => some (name, spec)
  | _ => none

/-- A part of a query to which some changes add, and which all others leave alone, after a run of
changes. -/
theorem view_foldl (view : QueryState → α) (added? : Change → Option β) (add : α → β → α)
    (hstep : ∀ q c, view (apply q c) = (added? c).elim (view q) (add (view q)))
    (changes : List Change) (q : QueryState) :
    view (changes.foldl apply q) = (changes.filterMap added?).foldl add (view q) := by
  induction changes generalizing q with
  | nil => rfl
  | cons c changes ih =>
    rw [List.foldl_cons, ih, hstep, List.filterMap_cons]
    cases added? c <;> rfl

variable {q : QueryState}

theorem apply_column (q : QueryState) (name : String) :
    apply q (.column name) = { q with columns := addNew q.columns name } :=
  q.addColumn_eq name

theorem columns_foldl (h : q.columns = []) (changes : List Change) :
    (changes.foldl apply q).columns = (changes.filterMap column?).eraseDups := by
  have hstep : ∀ q c, (apply q c).columns = (column? c).elim q.columns (addNew q.columns) := by
    intro q c
    cases c with
    | column name => rw [apply_column]; rfl
    | _ => rfl
  rw [view_foldl (fun q => q.columns) column? addNew hstep, h]
  exact foldl_addNew _

theorem sorts_foldl (h : q.sorts = []) (changes : List Change) :
    KeepsLatest (changes.foldl apply q).sorts (changes.filterMap sort?) := by
  have hstep : ∀ q c, (apply q c).sorts = (sort? c).elim q.sorts (putEntry q.sorts) := by
    intro q c
    cases c with
    | column name => rw [apply_column]; rfl
    | _ => rfl
  rw [view_foldl (fun q => q.sorts) sort? putEntry hstep, h]
  exact keepsLatest_foldl _

theorem aggregations_foldl (h : q.aggregations = []) (changes : List Change) :
    KeepsLatest (changes.foldl apply q).aggregations (changes.filterMap aggregation?) := by
  have hstep : ∀ q c, (apply q c).aggregations =
      (aggregation? c).elim q.aggregations (putEntry q.aggregations) := by
    intro q c
    cases c with
    | column name => rw [apply_column]; rfl
    | _ => rfl
  rw [view_foldl (fun q => q.aggregations) aggregation? putEntry hstep, h]
  exact keepsLatest_foldl _

end Change

/-! ## The changes of declarations -/

/-- The changes that a declaration comes to, of a value that is rejected those before the fault. -/
def Declaration.changes : Declaration → List Change
  | .index name => [.index name]
  | .documentType name => [.documentType name]
  | .limit n => [.limit n]
  | .offset n => [.offset n]
  | .columns names => names.map .column
  | .scroll token => [.scroll token]
  | .sort field spec => [.sort field spec]
  | .aggregation name spec => [.aggregation name spec]
  | .filter p => [.predicate p]
  | .filterBy call => call.predicate.toOption.toList.map .predicate
  | .set a value => untilError (a.changes value)

theorem Declaration.apply_eq (d : Declaration) (q : QueryState) :
    d.apply q = d.changes.foldl Change.apply q := by
  cases d with
  | columns names =>
    rw [changes, List.foldl_map]
    rfl
  | filterBy call =>
    rw [apply, changes, QueryState.filterEach]
    cases call.predicate <;> rfl
  | set a value => exact QueryState.state_set q a value
  | _ => rfl

theorem Declaration.foldl_apply_eq (ds : List Declaration) (q : QueryState) :
    ds.foldl (fun q d => d.apply q) q = (ds.flatMap changes).foldl Change.apply q := by
  simp only [List.foldl_flatMap, apply_eq]

/-! ## The parameters of a request -/

namespace Compile

variable {q : QueryState} {fields : Json.Fields}

/-- The fields that hold the parameters of a query: those of its flat request, or of the body of its
search. -/
def HoldsParameters (q : QueryState) (fields : Json.Fields) : Prop :=
  (∃ request, resolve q = .ok request ∧ request.params = fields) ∨
    ∃ request, search q = .ok request ∧ request.body? = some (.object fields)

theorem get?_of_holdsParameters (h : HoldsParameters q fields) {a : Attribute}
    (hindex : a ≠ .index) (htype : a ≠ .documentType) :
    fields.get? (parameter a) = if q.isSet a then (parameterValue q a).toOption else none := by
  rcases h with ⟨request, hrequest, rfl⟩ | ⟨request, hrequest, hbody⟩
  · exact get?_resolve hrequest
  · obtain ⟨resolved, index, documentType, hresolved, -, rfl⟩ := search_eq_ok_iff.mp hrequest
    cases hbody
    exact get?_searchFields hresolved hindex htype

theorem get?_sort (h : HoldsParameters q fields) :
    fields.get? "sort" =
      if q.sorts = [] then none else some (.array (q.sorts.map fun sort => .object [sort])) := by
  have hsort := get?_of_holdsParameters h (a := .orders) nofun nofun
  rw [ite_nil]
  exact hsort

theorem get?_aggs (h : HoldsParameters q fields) :
    fields.get? "aggs" =
      if q.aggregations = [] then none
      else some (.object (Json.Fields.ofList q.aggregations)) := by
  have haggs := get?_of_holdsParameters h (a := .aggregations) nofun nofun
  rw [ite_nil]
  exact haggs

end Compile

open Compile in
/-- **What is declared again is kept once.** After any declarations on a fresh query, which may have
an index and a document type, the columns are those that were added, each once and in the order in
which they first were. The sorts are those that were declared, each once, in the order in which they
first were and with the specification that was given last, and so are the aggregations. Hence a
request has a list of objects with one field for the sorts, one for each in their order, and an
object with one field for each of the aggregations. -/
theorem redeclared_kept_once (index documentType : Option String) (ds : List Declaration) :
    let q : QueryState := ds.foldl (fun q d => d.apply q) { index, documentType }
    let changes := ds.flatMap Declaration.changes
    (q.columns.Nodup ∧ q.columns = (changes.filterMap Change.column?).eraseDups) ∧
      ((q.sorts.map Prod.fst).Nodup ∧
        KeepsLatest q.sorts (changes.filterMap Change.sort?)) ∧
      ((q.aggregations.map Prod.fst).Nodup ∧
        KeepsLatest q.aggregations (changes.filterMap Change.aggregation?)) ∧
      ∀ fields, HoldsParameters q fields →
        fields.get? "sort" = (if q.sorts = [] then none
          else some (.array (q.sorts.map fun sort => .object [sort]))) ∧
        ∃ entries : Json.Fields, entries.Perm q.aggregations ∧
          fields.get? "aggs" = if q.aggregations = [] then none else some (.object entries) := by
  intro q changes
  have hq : q = changes.foldl Change.apply { index, documentType } :=
    Declaration.foldl_apply_eq ds _
  have hcolumns : q.columns = (changes.filterMap Change.column?).eraseDups := by
    rw [hq]
    exact Change.columns_foldl rfl changes
  have hsorts : KeepsLatest q.sorts (changes.filterMap Change.sort?) := by
    rw [hq]
    exact Change.sorts_foldl rfl changes
  have haggregations : KeepsLatest q.aggregations (changes.filterMap Change.aggregation?) := by
    rw [hq]
    exact Change.aggregations_foldl rfl changes
  refine ⟨⟨hcolumns ▸ nodup_eraseDups _, hcolumns⟩, ⟨hsorts.nodup, hsorts⟩,
    ⟨haggregations.nodup, haggregations⟩, fun fields hfields => ⟨get?_sort hfields, ?_⟩⟩
  exact ⟨_, Json.Fields.ofList_perm haggregations.nodup, get?_aggs hfields⟩

open Compile in
/-- A sort that is declared again after another, and columns of which a list is rejected at its
third item. -/
theorem redeclared_kept_once_sorted :
    let ascending : Json := .single "order" (.text "asc")
    let descending : Json := .single "order" (.text "desc")
    let ds : List Declaration :=
      [.columns ["name", "age", "name"], .sort "age" ascending,
        .set .columns (.array [.text "city", .text "age", .count 5, .text "zip"]),
        .set .orders (.object [("name", ascending)]), .sort "age" descending]
    let q : QueryState := ds.foldl (fun q d => d.apply q) { index := some "users" }
    q.columns = ["name", "age", "city"] ∧ q.columns.Nodup ∧
      KeepsLatest q.sorts [("age", ascending), ("name", ascending), ("age", descending)] ∧
      ∃ fields, HoldsParameters q fields ∧
        fields.get? "sort" =
          some (.array [.object [("age", descending)], .object [("name", ascending)]]) := by
  intro ascending descending ds q
  obtain ⟨⟨hcolumns, -⟩, ⟨-, hsorts⟩, -, hfields⟩ := redeclared_kept_once (some "users") none ds
  have hresolved : HoldsParameters q _ := Or.inl ⟨_, rfl, rfl⟩
  exact ⟨rfl, hcolumns, hsorts, _, hresolved, (hfields _ hresolved).1⟩

end DocSearch
