import DocSearch.Proofs.Listing
import DocSearch.Proofs.Targets

/-!
# Reads through a window

The four reads of a client send one and the same search but for its window, the size and the offset
in its body. A first document asks for a size of one, and a page for its own size and offset,
whatever limit and offset are declared. A page that comes back has the number that was asked for.

* `Compile.bodyFields_setLimit`, `Compile.bodyFields_setOffset`: what a limit and an offset change
  in the body of a search.
* `Call.request_of_indexedQuery`: what each of the reads compiles to.
* `reads_differ_by_window`: all of it, for any client.
-/

namespace DocSearch

/-! ## Changing one field -/

namespace Json.Fields

variable {fields : Fields} {table : List (String × Option Json)} {key other : String}
  {value : Option Json}

/-- Puts a value under a key, or takes away the one that stands there. -/
def put (key : String) (value : Option Json) (fields : Fields) : Fields :=
  match value with
  | some value => insert key value fields
  | none => erase key fields

theorem get?_put :
    get? (put key value fields) other = if other = key then value else get? fields other := by
  cases value with
  | none => exact get?_erase
  | some value => exact get?_insert

theorem ascending_put (h : fields.Ascending) : (put key value fields).Ascending := by
  cases value with
  | none => exact ascending_erase h
  | some value => exact ascending_insert h

/-- A table with another value for a name. -/
def replaced (key : String) (value : Option Json) (table : List (String × Option Json)) :
    List (String × Option Json) :=
  table.map fun entry => if entry.1 = key then (key, value) else entry

theorem keys_replaced : (replaced key value table).map Prod.fst = table.map Prod.fst := by
  rw [replaced, List.map_map]
  refine List.map_congr_left fun entry _ => ?_
  by_cases h : entry.1 = key <;> simp [h]

theorem lookup_replaced :
    (replaced key value table).lookup other =
      if other = key then (table.lookup key).map fun _ => value else table.lookup other := by
  induction table with
  | nil => simp [replaced]
  | cons entry table ih =>
    rw [replaced] at ih
    rw [replaced, List.map_cons, lookup_cons_eq, lookup_cons_eq, lookup_cons_eq, ih]
    by_cases hname : entry.1 = key
    · by_cases hother : other = key <;> simp [hname, hother]
    · by_cases hother : other = key
      · rw [if_neg hname, hother, if_neg (Ne.symm hname), if_pos rfl, if_pos rfl,
          if_neg (Ne.symm hname)]
      · rw [if_neg hname, if_neg hother, if_neg hother]

/-- When one value of a table changes, so does one of its fields. -/
theorem listed_replaced (h : (table.map Prod.fst).Pairwise (· < ·))
    (hkey : key ∈ table.map Prod.fst) :
    listed (replaced key value table) = put key value (listed table) := by
  have hreplaced : ((replaced key value table).map Prod.fst).Pairwise (· < ·) := by
    rw [keys_replaced]
    exact h
  -- Both sides are in order, so it is enough to look up each name.
  refine eq_of_get? (ascending_listed hreplaced) (ascending_put (ascending_listed h))
    fun other => ?_
  rw [get?_put, get?_listed (hreplaced.imp String.ne_of_lt),
    get?_listed (h.imp String.ne_of_lt), lookup_replaced]
  by_cases hother : other = key
  · obtain ⟨entry, hentry, rfl⟩ := List.mem_map.mp hkey
    have hsome : table.lookup entry.1 ≠ none := fun hnone =>
      absurd rfl (bne_iff_ne.mp (List.lookup_eq_none_iff.mp hnone entry hentry))
    obtain ⟨held, hheld⟩ := Option.ne_none_iff_exists'.mp hsome
    rw [if_pos hother, if_pos hother, hheld]
    rfl
  · rw [if_neg hother, if_neg hother]

end Json.Fields

/-! ## The window in the body of a search -/

namespace Compile

variable {q : QueryState} {tree : Json}

theorem keys_body (q : QueryState) (tree : Json) :
    ((parametersOf q tree).filter (·.1 ∉ targetNames)).map Prod.fst =
      ["_source", "aggs", "from", "query", "scroll", "size", "sort"] := rfl

/-- When one attribute of a query changes that is no target, so does one field of the body. -/
theorem bodyFields_replaced {changed : QueryState} {key : String} {value : Option Json}
    (h : (parametersOf changed tree).filter (·.1 ∉ targetNames) =
      Json.Fields.replaced key value ((parametersOf q tree).filter (·.1 ∉ targetNames)))
    (hkey : key ∈ ["_source", "aggs", "from", "query", "scroll", "size", "sort"]) :
    bodyFields changed tree = (bodyFields q tree).put key value := by
  rw [bodyFields, h]
  refine Json.Fields.listed_replaced ?_ ?_
  · rw [keys_body]
    decide
  · rw [keys_body]
    exact hkey

/-- A count among the parameters; zero is left out. -/
def countValue (n : UInt64) : Option Json := ((some n).filter (· ≠ 0)).map .count

theorem bodyFields_setLimit (q : QueryState) (tree : Json) (n : UInt64) :
    bodyFields (q.setLimit n) tree = (bodyFields q tree).put "size" (countValue n) :=
  bodyFields_replaced rfl (by decide)

theorem bodyFields_setOffset (q : QueryState) (tree : Json) (n : UInt64) :
    bodyFields (q.setOffset n) tree = (bodyFields q tree).put "from" (countValue n) :=
  bodyFields_replaced rfl (by decide)

theorem countValue_of_ne {n : UInt64} (h : n ≠ 0) : countValue n = some (.count n) := by
  simp [countValue, Option.filter, h]

/-- The hits before a page are left out of the body before the first page, and only there. -/
theorem countValue_skippedHits {page perPage : UInt64}
    (hargs : ¬ (Call.paginate page perPage).BadArguments) :
    countValue (.ofNat (Call.skippedHits page perPage)) =
      if page = 1 then none else some (.count (.ofNat ((page.toNat - 1) * perPage.toNat))) := by
  obtain ⟨hpage, hperPage, hwindow⟩ := Call.not_badArguments_paginate_iff.mp hargs
  rw [Call.skippedHits]
  by_cases hfirst : page = 1
  · rw [if_pos hfirst, hfirst]
    simp [countValue]
  · have hlater : 1 < page.toNat := by
      have hpos := toNat_pos hpage
      have hne : page.toNat ≠ 1 := fun h => hfirst (UInt64.toNat_inj.mp h)
      omega
    have hskipped : 0 < (page.toNat - 1) * perPage.toNat :=
      Nat.mul_pos (Nat.sub_pos_of_lt hlater) (toNat_pos hperPage)
    rw [if_neg hfirst]
    refine countValue_of_ne fun hzero => hskipped.ne' ?_
    exact (UInt64.toNat_ofNat_of_lt' hwindow).symm.trans (congrArg UInt64.toNat hzero)

end Compile

/-! ## The four reads -/

/-- A request with other fields in its body. -/
def Request.withBody (request : Request) (fields : Json.Fields) : Request :=
  request.insert "body" (.object fields)

/-- What a read makes of the fields that are declared for a search: a first document asks for a size
of one, and a page for its own size and offset. -/
def Call.windowed (read : Call) (fields : Json.Fields) : Json.Fields :=
  match read with
  | .first => fields.put "size" (some (.count 1))
  | .paginate page perPage =>
    (fields.put "size" (some (.count perPage))).put "from"
      (if page = 1 then none else some (.count (.ofNat ((page.toNat - 1) * perPage.toNat))))
  | _ => fields

section Reads

open Compile

variable {q : QueryState} {tree : Json} {read : Call} {client : Client} {reply : Reply}

/-- The search of a state with a query document, and with fields in its body. -/
def searchOf (q : QueryState) (tree : Json) (fields : Json.Fields) : Request :=
  ⟨("body", .object fields) :: targetFields q tree⟩

theorem search_of_indexedQuery (h : indexedQuery q = .ok tree) :
    search q = .ok (searchOf q tree (bodyFields q tree)) := by
  rw [search_eq, h]
  rfl

theorem withBody_searchOf (fields others : Json.Fields) :
    (searchOf q tree fields).withBody others = searchOf q tree others := rfl

/-- Each read searches for what is declared, through its own window. -/
theorem Call.request_of_indexedQuery (h : indexedQuery q = .ok tree)
    (hread : read.IsRead) (hargs : ¬ read.BadArguments) :
    read.request q = .ok (searchOf q tree (read.windowed (bodyFields q tree))) := by
  cases hread with
  | rawSearch => exact search_of_indexedQuery h
  | list => exact search_of_indexedQuery h
  | first =>
    -- neither a limit nor an offset has a part in the query document
    refine (search_of_indexedQuery (q := q.setLimit 1) h).trans ?_
    rw [bodyFields_setLimit, countValue_of_ne (by decide)]
    rfl
  | paginate page perPage =>
    obtain ⟨-, hperPage, -⟩ := Call.not_badArguments_paginate_iff.mp hargs
    refine (search_of_indexedQuery
      (q := (q.setLimit perPage).setOffset (.ofNat (skippedHits page perPage))) h).trans ?_
    rw [bodyFields_setOffset, bodyFields_setLimit, countValue_of_ne hperPage,
      countValue_skippedHits hargs]
    rfl

theorem Client.sent_of_indexedQuery (read : Call) (h : indexedQuery client.query = .ok tree)
    (hread : read.IsRead) (hargs : ¬ read.BadArguments) :
    (client.call read reply).sent =
      some (.search, searchOf client.query tree
        (read.windowed (bodyFields client.query tree))) := by
  rw [sent_of_compiled (Call.check_eq_ok_iff.mpr hargs)
    (Call.request_of_indexedQuery h hread hargs), hread.operation_eq]

theorem Client.result_ne_compile (hrequest : ∃ request, read.request client.query = .ok request)
    (e : CompileError) : (client.call read reply).result ≠ .error (.compile e) := by
  intro h
  obtain ⟨request, hrequest⟩ := hrequest
  cases hrequest.symm.trans (request_of_compile_error h)

end Reads

/-- **Reads differ by their window.** Either all reads of a client fail to compile, with one error,
or none does. Then a raw search and a list send the same request, and each of the other reads sends
it with its own window in the body: a size of one for a first document, and for a page its size and
its offset, which the first page leaves out. The page that is made of an answer has the size and the
number that were asked for, up to the greatest number. -/
theorem reads_differ_by_window (client : Client) :
    (∃ e, ∀ read : Call, read.IsRead → ¬ read.BadArguments → ∀ reply,
        (client.call read reply).result = .error (.compile e) ∧
          (client.call read reply).sent = none) ∨
      ∃ (raw : Request) (fields : Json.Fields), raw.body? = some (.object fields) ∧
        (∀ reply, (client.call .rawSearch reply).sent = some (.search, raw) ∧
          (client.call .list reply).sent = some (.search, raw)) ∧
        (∀ read : Call, read.IsRead → ¬ read.BadArguments → ∀ reply,
          (client.call read reply).sent =
              some (.search, raw.withBody (read.windowed fields)) ∧
            ∀ e, (client.call read reply).result ≠ .error (.compile e)) ∧
        ∀ page perPage, ¬ (Call.paginate page perPage).BadArguments →
          ∀ reply answer request found, reply.answer = .ok answer →
            SearchResult.decode answer request = .ok found →
            ∃ shown, (client.call (.paginate page perPage) reply).result = .ok (.page shown) ∧
              shown.perPage = some perPage ∧ shown.current = page.toNat := by
  cases hquery : Compile.indexedQuery client.query with
  | error e =>
    refine Or.inl ⟨e, fun read hread hargs reply => ?_⟩
    have hrequest : read.request client.query = .error e := by
      rw [← errorOf?_eq_some_iff, Call.errorOf?_request, hquery, errorOf?]
    rw [Client.call_of_uncompiled (Call.check_eq_ok_iff.mpr hargs) hrequest]
    exact ⟨rfl, rfl⟩
  | ok tree =>
    refine Or.inr ⟨searchOf client.query tree (Compile.bodyFields client.query tree), _, rfl,
      fun reply => ⟨?_, ?_⟩, fun read hread hargs reply => ⟨?_, ?_⟩, ?_⟩
    · exact Client.sent_of_indexedQuery .rawSearch hquery .rawSearch id
    · exact Client.sent_of_indexedQuery .list hquery .list id
    · rw [withBody_searchOf]
      exact Client.sent_of_indexedQuery read hquery hread hargs
    · exact Client.result_ne_compile ⟨_, Call.request_of_indexedQuery hquery hread hargs⟩
    · intro page perPage hargs reply answer request found hanswer hfound
      obtain ⟨shown, hresult, hperPage, hcurrent, -⟩ := Client.page_of_paginate hargs
        ⟨_, search_of_indexedQuery hquery⟩ hanswer hfound
      exact ⟨shown, hresult, hperPage, hcurrent⟩

/-- A client that declares a limit and an offset is asked for the page of the greatest number. -/
theorem reads_differ_by_window_last :
    let query : QueryState := { index := some "users", limit := some 5, offset := some 10 }
    let client : Client := { query }
    let answer : Json := .object [("hits", .object [])]
    let page : Call := .paginate 18446744073709551615 1
    let raw : Request := ⟨[("body", .object [("from", .count 10), ("size", .count 5)]),
      ("index", .text "users")]⟩
    ¬ page.BadArguments ∧ (client.call .rawSearch ⟨.ok answer, 0⟩).sent = some (.search, raw) ∧
      (client.call page ⟨.ok answer, 0⟩).sent = some (.search,
        raw.withBody [("from", .count 18446744073709551614), ("size", .count 1)]) ∧
      ∃ shown, (client.call page ⟨.ok answer, 0⟩).result = .ok (.page shown) ∧
        shown.perPage = some 1 ∧ shown.current = 18446744073709551615 := by
  intro query client answer page raw
  have hargs : ¬ page.BadArguments := by simp [page, Call.BadArguments, UInt64.size]
  rcases reads_differ_by_window client with
    ⟨e, hfailed⟩ | ⟨sent, fields, hbody, hraw, hreads, hpages⟩
  · cases (hfailed .rawSearch .rawSearch id ⟨.ok answer, 0⟩).2
  · obtain ⟨hsent, -⟩ := hraw ⟨.ok answer, 0⟩
    cases hsent
    cases hbody
    exact ⟨hargs, rfl, (hreads page (.paginate _ _) hargs _).1, hpages _ _ hargs _ _ {} _ rfl rfl⟩

end DocSearch
