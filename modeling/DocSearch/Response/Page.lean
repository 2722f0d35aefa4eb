import DocSearch.Response.SearchResult

/-!
# Pages

A search result as one page of a listing. The window of the page is that of its request: `from` hits
are skipped and at most `size` are returned. A request without a size is the only page.
-/

namespace DocSearch

structure Page where
  result : SearchResult
  /-- How many hits stand before the page. -/
  offset : UInt64
  /-- How many hits a page has; never zero. -/
  perPage : Option UInt64

namespace Page

/-- The greatest page number. -/
def greatestNumber : Nat := UInt64.size - 1

/-- The number under a key of a request's body. -/
def bodyCount? (request : Request) (key : String) : Option UInt64 :=
  (request.body?.bind (Json.get? · key)).bind Json.asCount?

/-- The page that a search result is. -/
def ofResult (result : SearchResult) : Page where
  result := result
  offset := (bodyCount? result.request "from").getD 0
  perPage := (bodyCount? result.request "size").filter (· ≠ 0)

/-- The number of the page whose window starts at an offset, counted from one. -/
def numberAt (offset perPage : Nat) : Nat := min (offset / perPage + 1) greatestNumber

/-- How many pages hold a number of hits. There is always a first page. -/
def pagesFor (total perPage : Nat) : Nat := max 1 ((total + perPage - 1) / perPage)

def current (page : Page) : Nat :=
  page.perPage.elim 1 fun n => numberAt page.offset.toNat n.toNat

def last (page : Page) : Nat :=
  page.perPage.elim 1 fun n => pagesFor page.result.totalHits.toNat n.toNat

def hasMore (page : Page) : Bool := page.current < page.last

def toJson (page : Page) : Json :=
  .object [("hits", .array (page.result.hits.map .object)), ("shards", page.result.shards),
    ("timed_out", .bool page.result.timedOut), ("took", .count page.result.took),
    ("total_hits", .count page.result.totalHits)]

end Page

end DocSearch
