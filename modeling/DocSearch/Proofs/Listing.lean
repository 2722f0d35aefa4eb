import DocSearch.Proofs.PageNumbers
import DocSearch.Proofs.Requests
import DocSearch.Proofs.Runs
import Mathlib.Data.List.Chain
import Mathlib.Order.Interval.Finset.Nat

/-!
# Turning the pages of a listing

A caller asks for the first page, and for the next as long as the page that came says that there
are more. If all that the caller declares compiles and all answers count the same hits, this ends
after as many calls as the hits fill pages, and the windows of the requests lie side by side and
hold every hit.

* `Client.page_of_paginate`: the page that is made of an answer.
* `Client.shows_of_paginate`: one page of a listing.
* `Client.forall₂_browse`: all of them, in order.
* `listing_visits_every_hit`: the windows of a listing that ends by itself.
-/

namespace DocSearch

/-! ## Listings -/

/-- What happens around one page: what the caller declares before asking for it, and the reply. -/
structure Turn where
  change : QueryState → QueryState
  reply : Reply

/-- A page that was asked for: the client that was asked, the reply and the effect. -/
structure Asked where
  client : Client
  reply : Reply
  effect : Effect

/-- Whether there is a page, and it says that there are more. -/
def Effect.hasMorePages (effect : Effect) : Bool :=
  match effect.result with
  | .ok (.page page) => page.hasMore
  | _ => false

/-- Asks for one page after the other, from a page on, while there are more; at most one page for
each turn. -/
def Client.browse (client : Client) (perPage : UInt64) (page : Nat) : List Turn → List Asked
  | [] => []
  | turn :: turns =>
    let declared := client.declare turn.change
    let effect := declared.call (.paginate (.ofNat page) perPage) turn.reply
    ⟨declared, turn.reply, effect⟩ ::
      if effect.hasMorePages then effect.client.browse perPage (page + 1) turns else []

/-- The reply is a search answer that counts a number of hits. -/
def Reply.Counts (reply : Reply) (total : UInt64) : Prop :=
  ∃ answer result, reply.answer = .ok answer ∧ SearchResult.decode answer {} = .ok result ∧
    result.totalHits = total

/-- The positions of the hits that a search asks for. -/
structure Window where
  start : Nat
  size : Nat

/-- Without an offset a window starts at the first hit. -/
def Window.ofRequest (request : Request) : Window where
  start := ((Page.bodyCount? request "from").getD 0).toNat
  size := ((Page.bodyCount? request "size").getD 0).toNat

def Window.positions (w : Window) : Finset Nat := Finset.Ico w.start (w.start + w.size)

def windowsOf (asked : List Asked) : List Window :=
  asked.filterMap fun a => a.effect.sent.map fun sent => .ofRequest sent.2

/-- The windows follow one another from the first position on, do not overlap and hold all
positions. -/
structure VisitOnce (windows : List Window) (total : Nat) : Prop where
  starts : windows.head?.map Window.start = some 0
  consecutive : windows.IsChain fun w next => next.start = w.start + w.size
  disjoint : windows.Pairwise fun w later => Disjoint w.positions later.positions
  covers : ∀ position < total, ∃ w ∈ windows, position ∈ w.positions

/-! ## The window of a request -/

section Window

variable {q : QueryState} {request : Request} {n : UInt64}

theorem asCount?_bind_count (n : Option UInt64) : (n.map Json.count).bind Json.asCount? = n := by
  cases n <;> rfl

theorem bodyCount?_of_search (h : Compile.search q = .ok request) :
    Page.bodyCount? request "size" = q.limit.filter (· ≠ 0) ∧
      Page.bodyCount? request "from" = q.offset.filter (· ≠ 0) := by
  obtain ⟨resolved, index, documentType, hresolve, -, rfl⟩ := Compile.search_eq_ok_iff.mp h
  have hsize : (Compile.searchFields resolved).get? "size" = (q.limit.filter (· ≠ 0)).map .count :=
    (Compile.get?_searchFields (a := .limit) hresolve (by simp) (by simp)).trans
      (Compile.toOption_ofCount? q.limit)
  have hfrom : (Compile.searchFields resolved).get? "from" = (q.offset.filter (· ≠ 0)).map .count :=
    (Compile.get?_searchFields (a := .offset) hresolve (by simp) (by simp)).trans
      (Compile.toOption_ofCount? q.offset)
  constructor
  · refine Eq.trans ?_ (asCount?_bind_count _)
    rw [← hsize]
    rfl
  · refine Eq.trans ?_ (asCount?_bind_count _)
    rw [← hfrom]
    rfl

/-- A limit and an offset have no part in whether a search compiles. -/
theorem exists_search_iff :
    (∃ request, Compile.search q = .ok request) ↔
      q.isSet .index = true ∧ ∃ d, Compile.query q = .ok d := by
  rw [← Compile.exists_resolve_iff]
  constructor
  · rintro ⟨request, h⟩
    obtain ⟨resolved, -, -, hresolve, -⟩ := Compile.search_eq_ok_iff.mp h
    exact ⟨resolved, hresolve⟩
  · rintro ⟨resolved, hresolve⟩
    obtain ⟨index, documentType, hnames⟩ :=
      QueryState.isSet_index_iff.mp (Compile.exists_resolve_iff.mp ⟨resolved, hresolve⟩).1
    exact ⟨_, Compile.search_of_resolve hnames hresolve⟩

end Window

/-! ## One page -/

namespace Page

variable {perPage : UInt64} {k : Nat}

/-- The page of a window that is aligned to its size. -/
theorem ofResult_aligned (result : SearchResult) {offset : UInt64}
    (hoffset : (bodyCount? result.request "from").getD 0 = offset)
    (hsize : bodyCount? result.request "size" = some perPage) (hperPage : perPage ≠ 0)
    (haligned : offset.toNat = k * perPage.toNat) (hk : k < greatestNumber) :
    (ofResult result).current = k + 1 ∧
      (ofResult result).last = max 1 (result.totalHits.toNat ⌈/⌉ perPage.toNat) := by
  obtain ⟨hcurrent, hlast⟩ := numbers_of_window hsize hperPage hoffset
  constructor
  · rw [hcurrent, numberAt, haligned, Nat.mul_div_cancel k (toNat_pos hperPage)]
    omega
  · rw [hlast, pagesFor_eq]

end Page

/-- How many pages of a size hold a number of hits; there is always a first page. -/
def pageCount (total perPage : UInt64) : Nat := max 1 (total.toNat ⌈/⌉ perPage.toNat)

section Arithmetic

variable {total perPage : UInt64} {k : Nat}

/-- The window of a page begins at a hit, unless it is the first. -/
theorem lt_pageCount_iff (hperPage : perPage ≠ 0) :
    k < pageCount total perPage ↔ k = 0 ∨ k * perPage.toNat < total.toNat := by
  rw [pageCount, ← Page.pagesFor_eq, Page.lt_pagesFor_iff (toNat_pos hperPage)]

/-- Every hit is in the window of some page. -/
theorem div_lt_pageCount {position : Nat} (hperPage : perPage ≠ 0)
    (hposition : position < total.toNat) : position / perPage.toNat < pageCount total perPage :=
  (lt_pageCount_iff hperPage).mpr
    (Or.inr (Nat.lt_of_le_of_lt (Nat.div_mul_le_self position perPage.toNat) hposition))

/-- Neither the number nor the offset of a page overflows. -/
theorem bounds_of_lt_pageCount (hperPage : perPage ≠ 0) (hk : k < pageCount total perPage) :
    k + 1 < UInt64.size ∧ k * perPage.toNat < UInt64.size := by
  have htotal := total.toNat_lt
  have hpos := toNat_pos hperPage
  -- The offset is the position of a hit, and the hits are counted in 64 bits; pages are not empty,
  -- so there are no more of them than hits.
  rcases (lt_pageCount_iff hperPage).mp hk with rfl | hlt
  · simp [UInt64.size]
  · have hle : k ≤ k * perPage.toNat := Nat.le_mul_of_pos_right k hpos
    simp only [UInt64.size]
    omega

end Arithmetic

/-- The `k`-th page of a listing came: its request has the `k`-th window, and it tells whether it
is the last of all pages. -/
structure Asked.Shows (perPage : UInt64) (pages : Nat) (asked : Asked) (k : Nat) : Prop where
  sent : ∃ request, asked.effect.sent = some (.search, request) ∧
    Window.ofRequest request = ⟨k * perPage.toNat, perPage.toNat⟩
  result : ∃ page, asked.effect.result = .ok (.page page)
  more : asked.effect.hasMorePages = decide (k + 1 < pages)

theorem getD_filter_ne_zero (n : UInt64) : ((some n).filter (· ≠ 0)).getD 0 = n := by
  by_cases h : n = 0 <;> simp [Option.filter, h]

/-- A page of a query that compiles has a request, and its window is the page. -/
theorem Call.request_paginate {q : QueryState} {perPage : UInt64} (page : UInt64)
    (hperPage : perPage ≠ 0) (hquery : ∃ request, Compile.search q = .ok request) :
    ∃ request, (Call.paginate page perPage).request q = .ok request ∧
      Page.bodyCount? request "size" = some perPage ∧
      (Page.bodyCount? request "from").getD 0 = .ofNat (Call.skippedHits page perPage) := by
  let window := (q.setLimit perPage).setOffset (.ofNat (Call.skippedHits page perPage))
  obtain ⟨request, hrequest⟩ : ∃ request, Compile.search window = .ok request :=
    (exists_search_iff (q := window)).mpr ((exists_search_iff (q := q)).mp hquery)
  obtain ⟨hsize, hfrom⟩ := bodyCount?_of_search hrequest
  refine ⟨request, hrequest, ?_, ?_⟩
  · rw [hsize]
    simp [window, QueryState.setLimit, QueryState.setOffset, Option.filter, hperPage]
  · rw [hfrom]
    exact getD_filter_ne_zero _

theorem Client.result_paginate {client : Client} {page perPage : UInt64} {reply : Reply}
    {request : Request} {answer : Json} {result : SearchResult}
    (hcheck : (Call.paginate page perPage).check = .ok ())
    (hrequest : (Call.paginate page perPage).request client.query = .ok request)
    (hanswer : reply.answer = .ok answer)
    (hresult : SearchResult.decode answer request = .ok result) :
    (client.call (.paginate page perPage) reply).result = .ok (.page (.ofResult result)) := by
  rw [Client.call_of_compiled hcheck hrequest]
  simp only [Client.settleReply, hanswer, Call.settle, Except.bind, Call.deliver, Call.decodePage,
    hresult]

namespace Client

variable {client : Client} {perPage total : UInt64} {reply : Reply} {k : Nat}

/-- A page that is let through and answered has the size and the number that it was asked for. -/
theorem page_of_paginate {page : UInt64} {answer : Json} {asked : Request} {found : SearchResult}
    (hargs : ¬ (Call.paginate page perPage).BadArguments)
    (hquery : ∃ request, Compile.search client.query = .ok request)
    (hanswer : reply.answer = .ok answer) (hfound : SearchResult.decode answer asked = .ok found) :
    ∃ shown, (client.call (.paginate page perPage) reply).result = .ok (.page shown) ∧
      shown.perPage = some perPage ∧ shown.current = page.toNat ∧
      shown.last = pageCount found.totalHits perPage := by
  have hcheck := Call.check_eq_ok_iff.mpr hargs
  obtain ⟨hpage, hperPage, hwindow⟩ := Call.not_badArguments_paginate_iff.mp hargs
  obtain ⟨request, hrequest, hsize, hfrom⟩ := Call.request_paginate page hperPage hquery
  have haligned : (UInt64.ofNat (Call.skippedHits page perPage)).toNat =
      (page.toNat - 1) * perPage.toNat :=
    UInt64.toNat_ofNat_of_lt' hwindow
  have hpos := toNat_pos hpage
  have hlt := page.toNat_lt
  -- The number of the page is inverted from its offset; it is below the greatest one, so that the
  -- page after the skipped ones has a number too.
  obtain ⟨hcurrent, hlast⟩ := Page.ofResult_aligned { found with request := request }
    hfrom hsize hperPage haligned (by rw [Page.greatestNumber, UInt64.size]; omega)
  refine ⟨_, result_paginate hcheck hrequest hanswer (SearchResult.decode_request hfound),
    Page.perPage_ofResult hsize hperPage, ?_, hlast⟩
  rw [hcurrent]
  omega

/-- **One page.** Asked of a client whose query compiles and answered with the count of the hits,
the `k`-th page is not rejected, has the `k`-th window and tells whether it is the last. -/
theorem shows_of_paginate (hperPage : perPage ≠ 0)
    (hquery : ∃ request, Compile.search client.query = .ok request) (hreply : reply.Counts total)
    (hk : k < pageCount total perPage) :
    Asked.Shows perPage (pageCount total perPage)
      ⟨client, reply, client.call (.paginate (.ofNat (k + 1)) perPage) reply⟩ k := by
  obtain ⟨hnumber, hoffset⟩ := bounds_of_lt_pageCount hperPage hk
  have hpage : (UInt64.ofNat (k + 1)).toNat = k + 1 := UInt64.toNat_ofNat_of_lt' hnumber
  have hpage_ne : UInt64.ofNat (k + 1) ≠ 0 := by
    intro hzero
    rw [hzero] at hpage
    cases hpage
  have hskipped : Call.skippedHits (.ofNat (k + 1)) perPage = k * perPage.toNat := by
    rw [Call.skippedHits, hpage, Nat.add_sub_cancel]
  -- Nothing overflows: the call is let through and the window is the page.
  have hargs : ¬ (Call.paginate (.ofNat (k + 1)) perPage).BadArguments := by
    refine Call.not_badArguments_paginate_iff.mpr ⟨hpage_ne, hperPage, ?_⟩
    rw [hpage, Nat.add_sub_cancel]
    exact hoffset
  obtain ⟨request, hrequest, hsize, hfrom⟩ :=
    Call.request_paginate (.ofNat (k + 1)) hperPage hquery
  obtain ⟨answer, counted, hanswer, hcounted, rfl⟩ := hreply
  obtain ⟨shown, hresult, -, hcurrent, hlast⟩ := page_of_paginate hargs hquery hanswer hcounted
  refine ⟨⟨request, ?_, ?_⟩, ⟨shown, hresult⟩, ?_⟩
  · exact sent_of_compiled (Call.check_eq_ok_iff.mpr hargs) hrequest
  · rw [Window.ofRequest, hfrom, hsize, hskipped, UInt64.toNat_ofNat_of_lt' hoffset]
    rfl
  · simp only [Effect.hasMorePages, hresult, Page.hasMore, hcurrent, hlast, hpage]

theorem query_of_hasMorePages {call : Call} (h : (client.call call reply).hasMorePages = true) :
    (client.call call reply).client.query = client.query.reset := by
  cases hcheck : call.check with
  | error e =>
    rw [call_of_bad_arguments hcheck] at h
    cases h
  | ok _ =>
    cases hrequest : call.request client.query with
    | error e =>
      rw [call_of_uncompiled hcheck hrequest] at h
      cases h
    | ok request => rw [call_of_compiled hcheck hrequest]

/-- A listing whose turns all declare a query of the same target. -/
theorem forall_mem_browse {target : QueryState} {page : Nat} {turns : List Turn}
    (hclient : client.query = target)
    (hturns : ∀ turn ∈ turns, (turn.change target).reset = target ∧
      (∃ request, Compile.search (turn.change target) = .ok request) ∧ turn.reply.Counts total) :
    ∀ asked ∈ client.browse perPage page turns,
      (∃ request, Compile.search asked.client.query = .ok request) ∧ asked.reply.Counts total := by
  induction turns generalizing client page with
  | nil => exact fun asked hmem => absurd hmem List.not_mem_nil
  | cons turn turns ih =>
    obtain ⟨⟨hreset, hasked⟩, hrest⟩ := List.forall_mem_cons.mp hturns
    rw [← hclient] at hasked
    rw [browse]
    refine List.forall_mem_cons.mpr ⟨hasked, fun asked hmem => ?_⟩
    split at hmem
    case isTrue hmore =>
      have hdeclared : (client.declare turn.change).query.reset = target := by
        rw [declare, hclient, hreset]
      exact ih ((query_of_hasMorePages hmore).trans hdeclared) hrest asked hmem
    case isFalse => cases hmem

/-- **All pages.** From the `k`-th page on a listing shows the pages that are left, in order. -/
theorem forall₂_browse (hperPage : perPage ≠ 0) {turns : List Turn}
    (hturns : ∀ asked ∈ client.browse perPage (k + 1) turns,
      (∃ request, Compile.search asked.client.query = .ok request) ∧ asked.reply.Counts total)
    (hk : k < pageCount total perPage) (henough : pageCount total perPage ≤ k + turns.length) :
    List.Forall₂ (Asked.Shows perPage (pageCount total perPage))
      (client.browse perPage (k + 1) turns) (List.range' k (pageCount total perPage - k)) := by
  induction turns generalizing client k with
  | nil =>
    simp only [List.length_nil] at henough
    omega
  | cons turn turns ih =>
    obtain ⟨left, hleft⟩ : ∃ left, pageCount total perPage - k = left + 1 :=
      ⟨pageCount total perPage - k - 1, by omega⟩
    rw [browse] at hturns ⊢
    obtain ⟨⟨hquery, hreply⟩, hrest⟩ := List.forall_mem_cons.mp hturns
    have hshows := shows_of_paginate hperPage hquery hreply hk
    rw [hleft, List.range'_succ]
    refine List.Forall₂.cons hshows ?_
    -- The page tells whether it is the last, so the listing goes on just if a page is left.
    by_cases hmore : k + 1 < pageCount total perPage
    · rw [if_pos (by rw [hshows.more, decide_eq_true hmore])] at hrest ⊢
      have hstep : left = pageCount total perPage - (k + 1) := by omega
      rw [hstep]
      exact ih hrest hmore (by simp only [List.length_cons] at henough; omega)
    · rw [if_neg (by rw [hshows.more, decide_eq_false hmore]; simp)]
      obtain rfl : left = 0 := by omega
      exact List.Forall₂.nil

end Client

/-! ## The windows of a listing -/

theorem windowsOf_eq {perPage : UInt64} {pages : Nat} {asked : List Asked} {ks : List Nat}
    (h : List.Forall₂ (Asked.Shows perPage pages) asked ks) :
    windowsOf asked = ks.map fun k => ⟨k * perPage.toNat, perPage.toNat⟩ := by
  induction h with
  | nil => rfl
  | cons hshows _ ih =>
    obtain ⟨request, hsent, hwindow⟩ := hshows.sent
    rw [windowsOf] at ih
    rw [windowsOf, List.filterMap_cons, hsent, Option.map_some, List.map_cons, hwindow, ih]

theorem Window.mem_positions {w : Window} {position : Nat} :
    position ∈ w.positions ↔ w.start ≤ position ∧ position < w.start + w.size :=
  Finset.mem_Ico

/-- As many windows of the size of a page as the hits fill pages hold every hit once. -/
theorem visitOnce_pages {perPage total : UInt64} (hperPage : perPage ≠ 0) :
    VisitOnce ((List.range' 0 (pageCount total perPage)).map
      fun k => ⟨k * perPage.toNat, perPage.toNat⟩) total.toNat where
  starts := by
    obtain ⟨left, hleft⟩ : ∃ left, pageCount total perPage = left + 1 :=
      ⟨pageCount total perPage - 1, (Nat.sub_add_cancel (Nat.le_max_left _ _)).symm⟩
    rw [hleft, List.range'_succ, List.map_cons, List.head?_cons, Option.map_some, Nat.zero_mul]
  consecutive := by
    refine (List.isChain_map _).mpr ((List.isChain_range' 0 _ 1).imp ?_)
    rintro k next rfl
    rw [Nat.add_mul, Nat.one_mul]
  disjoint := by
    refine List.pairwise_map.mpr ((List.pairwise_lt_range' 1).imp ?_)
    intro k later hlt
    have hle : (k + 1) * perPage.toNat ≤ later * perPage.toNat :=
      Nat.mul_le_mul_right perPage.toNat hlt
    rw [Nat.add_mul, Nat.one_mul] at hle
    refine Finset.disjoint_left.mpr fun position hk hlater => ?_
    have hk := Window.mem_positions.mp hk
    have hlater := Window.mem_positions.mp hlater
    simp only at hk hlater
    omega
  covers := by
    intro position hposition
    have hk := div_lt_pageCount hperPage hposition
    refine ⟨_, List.mem_map_of_mem (List.mem_range'_1.mpr ⟨Nat.zero_le _, by omega⟩),
      Window.mem_positions.mpr ⟨Nat.div_mul_le_self position perPage.toNat, ?_⟩⟩
    have hmod := Nat.mod_lt position (toNat_pos hperPage)
    have hdiv := Nat.div_add_mod' position perPage.toNat
    simp only
    omega

/-- **A listing visits every hit once.** Whatever the size of a page and the number of hits are, a
listing in which every declared query compiles and every answer counts the same hits ends by
itself after as many calls as the hits fill pages, at least one. None of the calls is rejected,
all pages but the last say that there are more, and the windows of the requests follow one
another, do not overlap and hold every hit. -/
theorem listing_visits_every_hit (client : Client) {perPage total : UInt64} (hperPage : perPage ≠ 0)
    {turns : List Turn}
    (hturns : ∀ asked ∈ client.browse perPage 1 turns,
      (∃ request, Compile.search asked.client.query = .ok request) ∧ asked.reply.Counts total)
    (henough : max 1 (total.toNat ⌈/⌉ perPage.toNat) ≤ turns.length) :
    let calls := client.browse perPage 1 turns
    calls.length = max 1 (total.toNat ⌈/⌉ perPage.toNat) ∧
      (∀ (i : Nat) (asked : Asked), calls[i]? = some asked →
        (∃ request, asked.effect.sent = some (.search, request)) ∧
        (∃ page, asked.effect.result = .ok (.page page)) ∧
        asked.effect.hasMorePages = decide (i + 1 < calls.length)) ∧
      VisitOnce (windowsOf calls) total.toNat := by
  intro calls
  have hfirst : 0 < pageCount total perPage := Nat.lt_of_lt_of_le Nat.one_pos (Nat.le_max_left _ _)
  have hshows : List.Forall₂ (Asked.Shows perPage (pageCount total perPage)) calls
      (List.range' 0 (pageCount total perPage)) :=
    client.forall₂_browse hperPage hturns hfirst (by rw [Nat.zero_add]; exact henough)
  have hlength : calls.length = pageCount total perPage := by
    rw [hshows.length_eq, List.length_range']
  refine ⟨hlength, ?_, ?_⟩
  · intro i asked hasked
    obtain ⟨hi, rfl⟩ := List.getElem?_eq_some_iff.mp hasked
    have hask := hshows.get hi (by rw [List.length_range']; omega)
    simp only [List.get_eq_getElem, List.getElem_range', Nat.zero_add, Nat.one_mul] at hask
    obtain ⟨request, hsent, -⟩ := hask.sent
    exact ⟨⟨request, hsent⟩, hask.result, by rw [hask.more, hlength]⟩
  · rw [windowsOf_eq hshows]
    exact visitOnce_pages hperPage

/-- Three hits on pages of two: of three turns that are offered two are taken. -/
theorem listing_visits_every_hit_three :
    let client : Client := { query := .forIndex "users" }
    let answer : Json := .object [("hits", .object [("hits", .array []), ("total", .count 3)])]
    let turn : Turn := ⟨fun q => q.addColumn "name", ⟨.ok answer, 0⟩⟩
    let calls := client.browse 2 1 [turn, turn, turn]
    calls.length = 2 ∧ VisitOnce (windowsOf calls) 3 := by
  intro client answer turn calls
  have hturn : (turn.change client.query).reset = client.query ∧
      (∃ request, Compile.search (turn.change client.query) = .ok request) ∧
        turn.reply.Counts 3 :=
    ⟨rfl, ⟨_, rfl⟩, answer, _, rfl, rfl, rfl⟩
  have hcalls : ∀ asked ∈ calls,
      (∃ request, Compile.search asked.client.query = .ok request) ∧ asked.reply.Counts 3 :=
    Client.forall_mem_browse rfl (by simpa using hturn)
  obtain ⟨hlength, -, hvisit⟩ :=
    listing_visits_every_hit client (show (2 : UInt64) ≠ 0 by decide) hcalls (by decide)
  exact ⟨hlength, hvisit⟩

end DocSearch
