import DocSearch.Proofs.Decoding
import DocSearch.Response.Page
import Mathlib.Algebra.Order.Floor.Div

/-!
# The numbers of a page

A page has the size and the offset of its request's window; its number, that of the last page and
whether there are more pages are computed from them and from the number of hits. The numbers are
exact up to the greatest 64-bit words: no step of their computation in words divides by zero or
overflows, and where the number of a page is cut off at the greatest word, no page follows anyway.

* `Page.numberWord?_map`, `Page.lastWord?_map`: the computation in words, step by step, gives the
  numbers.
* `Page.lt_pagesFor_iff`, `Page.numberAt_lt_pagesFor_iff`: when there are more pages.
* `page_numbers_exact`: what is told of the page of any result.
-/

namespace DocSearch

theorem toNat_pos {n : UInt64} (h : n ≠ 0) : 0 < n.toNat :=
  UInt64.lt_iff_toNat_lt.mp (UInt64.pos_iff_ne_zero.mpr h)

namespace Page

/-! ## Numbers of pages -/

section Numbers

variable {offset total perPage k : Nat}

theorem pagesFor_eq (total perPage : Nat) : pagesFor total perPage = max 1 (total ⌈/⌉ perPage) := by
  rw [pagesFor, Nat.ceilDiv_eq_add_pred_div]

theorem numberAt_pos (offset perPage : Nat) : 0 < numberAt offset perPage :=
  Nat.lt_min.mpr ⟨Nat.succ_pos _, by decide⟩

theorem pagesFor_pos (total perPage : Nat) : 0 < pagesFor total perPage :=
  Nat.lt_of_lt_of_le Nat.one_pos (Nat.le_max_left _ _)

/-- A page is there if it is the first or if hits are left for it. -/
theorem lt_pagesFor_iff (h : 0 < perPage) :
    k < pagesFor total perPage ↔ k = 0 ∨ k * perPage < total := by
  rw [pagesFor_eq, lt_max_iff, Nat.lt_one_iff, ← not_le (a := total ⌈/⌉ perPage),
    ceilDiv_le_iff_le_mul h, not_le, Nat.mul_comm]

/-- No more pages than hits, the first page apart. -/
theorem pagesFor_le (h : 0 < perPage) : pagesFor total perPage ≤ max 1 total := by
  rw [pagesFor_eq]
  exact max_le_max_left 1 ((ceilDiv_le_iff_le_mul h).mpr (Nat.le_mul_of_pos_left total h))

/-- The cut at the greatest number does not change whether a page is followed by another. -/
theorem numberAt_lt_pagesFor_iff (h : 0 < perPage) (htotal : total ≤ greatestNumber) :
    numberAt offset perPage < pagesFor total perPage ↔
      offset / perPage + 1 < pagesFor total perPage := by
  have hone : 1 ≤ greatestNumber := by decide
  have hlast : pagesFor total perPage ≤ greatestNumber :=
    (pagesFor_le h).trans (max_le hone htotal)
  rw [numberAt, min_lt_iff, or_iff_left (Nat.not_lt.mpr hlast)]

/-- Past the last page no hit is left, wherever in its page a window starts. -/
theorem le_add_of_le_mul (h : total ≤ (offset / perPage + 1) * perPage) :
    total ≤ offset + perPage := by
  have hfloor := Nat.div_mul_le_self offset perPage
  rw [Nat.add_mul, Nat.one_mul] at h
  omega

theorem succ_mul_of_dvd (h : perPage ∣ offset) :
    (offset / perPage + 1) * perPage = offset + perPage := by
  rw [Nat.add_mul, Nat.one_mul, Nat.div_mul_cancel h]

end Numbers

/-! ## The numbers in words -/

/-- The next word, unless it overflows. -/
def nextWord? (n : UInt64) : Option UInt64 :=
  if n.toNat + 1 < UInt64.size then some (n + 1) else none

/-- A quotient of words, unless the divisor is zero. -/
def quotientWord? (n divisor : UInt64) : Option UInt64 :=
  if divisor = 0 then none else some (n / divisor)

/-- The number of a page in words. A word without a next one stands for it. -/
def numberWord? (offset perPage : UInt64) : Option UInt64 := do
  let before ← quotientWord? offset perPage
  return (nextWord? before).getD before

/-- The number of the last page in words. The quotient is rounded up by its remainder. -/
def lastWord? (total perPage : UInt64) : Option UInt64 := do
  let full ← quotientWord? total perPage
  let all ← if total % perPage = 0 then some full else nextWord? full
  return max 1 all

section Words

variable {offset total perPage n : UInt64}

theorem nextWord?_of_lt (h : n.toNat + 1 < UInt64.size) : nextWord? n = some (n + 1) := if_pos h

theorem toNat_add_one (h : n.toNat + 1 < UInt64.size) : (n + 1).toNat = n.toNat + 1 := by
  rw [UInt64.toNat_add]
  exact Nat.mod_eq_of_lt h

theorem toNat_getD_nextWord? (n : UInt64) :
    ((nextWord? n).getD n).toNat = min (n.toNat + 1) greatestNumber := by
  have hn := n.toNat_lt
  have hsize : UInt64.size = greatestNumber + 1 := rfl
  by_cases h : n.toNat + 1 < UInt64.size
  · rw [nextWord?_of_lt h, Option.getD_some, toNat_add_one h]
    omega
  · rw [nextWord?, if_neg h, Option.getD_none]
    simp only [UInt64.size] at h hsize
    omega

/-- The number of a page is computed without a division by zero, and cut off at the greatest. -/
theorem numberWord?_map (h : perPage ≠ 0) :
    (numberWord? offset perPage).map UInt64.toNat =
      some (numberAt offset.toNat perPage.toNat) := by
  rw [numberWord?, quotientWord?, if_neg h]
  simp only [Option.bind_eq_bind, Option.bind_some, Option.pure_def, Option.map_some]
  rw [toNat_getD_nextWord?, UInt64.toNat_div, numberAt]

/-- A quotient that is rounded up was below the number that is divided. -/
theorem div_lt_of_mod_ne_zero {total perPage : Nat} (h : 0 < perPage) (hmod : total % perPage ≠ 0) :
    total / perPage < total := by
  have hdiv := Nat.div_add_mod' total perPage
  have hle := Nat.le_mul_of_pos_right (total / perPage) h
  omega

theorem ceilDiv_eq (total : Nat) {perPage : Nat} (h : 0 < perPage) :
    total ⌈/⌉ perPage = if total % perPage = 0 then total / perPage else total / perPage + 1 := by
  have hdiv := Nat.div_add_mod' total perPage
  have hmod := Nat.mod_lt total h
  have hnext := Nat.add_one_mul (total / perPage) perPage
  have hafter := Nat.add_one_mul (total / perPage + 1) perPage
  rw [Nat.ceilDiv_eq_add_pred_div]
  split
  all_goals exact Nat.div_eq_of_lt_le (by omega) (by omega)

/-- The number of the last page is computed without a division by zero and without an overflow. -/
theorem lastWord?_map (h : perPage ≠ 0) :
    (lastWord? total perPage).map UInt64.toNat = some (pagesFor total.toNat perPage.toNat) := by
  have hpos := toNat_pos h
  have htotal := total.toNat_lt
  have hzero : total % perPage = 0 ↔ total.toNat % perPage.toNat = 0 := by
    rw [← UInt64.toNat_inj, UInt64.toNat_mod]
    rfl
  rw [lastWord?, quotientWord?, if_neg h, pagesFor_eq, ceilDiv_eq _ hpos]
  by_cases hmod : total % perPage = 0
  · simp [if_pos hmod, if_pos (hzero.mp hmod), UInt64.toNat_max, UInt64.toNat_div]
  · -- the remainder is a hit of its own, so that the quotient is no greatest word
    have hlt : (total / perPage).toNat + 1 < UInt64.size := by
      rw [UInt64.toNat_div]
      have := div_lt_of_mod_ne_zero hpos (mt hzero.mpr hmod)
      simp only [UInt64.size]
      omega
    simp [if_neg hmod, if_neg (mt hzero.mpr hmod), nextWord?_of_lt hlt, UInt64.toNat_max,
      toNat_add_one hlt, UInt64.toNat_div]

end Words

end Page

/-! ## The page of a result -/

/-- The request's body has a number under a key. -/
def Request.BodyHas (request : Request) (key : String) (n : UInt64) : Prop :=
  ∃ body, request.body? = some body ∧ body.get? key = some (.count n)

namespace Page

variable {request : Request} {result : SearchResult} {key : String} {n size : UInt64}

theorem bodyCount?_eq_some_iff : bodyCount? request key = some n ↔ request.BodyHas key n := by
  rw [bodyCount?, SearchResult.bind_asCount?_eq_some_iff, Option.bind_eq_some_iff]
  rfl

theorem perPage_ofResult (hsize : bodyCount? result.request "size" = some size) (h : size ≠ 0) :
    (ofResult result).perPage = some size := by
  simp [ofResult, hsize, Option.filter, h]

theorem perPage_eq_none (h : ∀ size, result.request.BodyHas "size" size → size = 0) :
    (ofResult result).perPage = none := by
  cases hsize : bodyCount? result.request "size" with
  | none => simp [ofResult, hsize]
  | some size =>
    have hzero := h size (bodyCount?_eq_some_iff.mp hsize)
    simp [ofResult, hsize, hzero]

theorem getD_bodyCount?_from {offset : UInt64}
    (h : request.BodyHas "from" offset ∨ offset = 0 ∧ ∀ n, ¬ request.BodyHas "from" n) :
    (bodyCount? request "from").getD 0 = offset := by
  rcases h with hgiven | ⟨rfl, hnone⟩
  · rw [bodyCount?_eq_some_iff.mpr hgiven, Option.getD_some]
  · cases hfrom : bodyCount? request "from" with
    | none => rfl
    | some n => exact absurd (bodyCount?_eq_some_iff.mp hfrom) (hnone n)

/-- The numbers of a page by the window of its request. -/
theorem numbers_of_window {offset : UInt64} (hsize : bodyCount? result.request "size" = some size)
    (hne : size ≠ 0) (hoffset : (bodyCount? result.request "from").getD 0 = offset) :
    (ofResult result).current = numberAt offset.toNat size.toNat ∧
      (ofResult result).last = pagesFor result.totalHits.toNat size.toNat := by
  have hper := perPage_ofResult hsize hne
  have hfrom : (ofResult result).offset = offset := hoffset
  constructor
  · rw [current, hper, Option.elim_some, hfrom]
  · rw [last, hper, Option.elim_some]
    rfl

end Page

/-- **Page numbers are exact.** The page of a result whose request has a size that is not zero, and
an offset that is zero if none is given, has the numbers that are computed of them and of the count
of all hits in words, without a division by zero or an overflow; both are at least one. There are
more pages just if the pages up to this one hold less than all hits, and the cut of its number at
the greatest word does not change that. If there are none, no hit is left behind the window; and if
hits are left behind a window that is aligned to its size, there are more pages. Without a size the
page is the first and the last. -/
theorem page_numbers_exact (result : SearchResult) :
    let page := Page.ofResult result
    let total := result.totalHits
    (∀ offset size : UInt64, result.request.BodyHas "size" size → size ≠ 0 →
      (result.request.BodyHas "from" offset ∨
        offset = 0 ∧ ∀ n, ¬ result.request.BodyHas "from" n) →
      (Page.numberWord? offset size).map UInt64.toNat = some page.current ∧
      (Page.lastWord? total size).map UInt64.toNat = some page.last ∧
      1 ≤ page.current ∧ 1 ≤ page.last ∧
      (page.hasMore = true ↔
        (offset.toNat / size.toNat + 1) * size.toNat < total.toNat) ∧
      (page.hasMore = true ↔ offset.toNat / size.toNat + 1 < page.last) ∧
      (page.hasMore = false → total.toNat ≤ offset.toNat + size.toNat) ∧
      (size.toNat ∣ offset.toNat →
        (page.hasMore = false ↔ total.toNat ≤ offset.toNat + size.toNat))) ∧
    ((∀ size, result.request.BodyHas "size" size → size = 0) →
      page.current = 1 ∧ page.last = 1 ∧ page.hasMore = false) := by
  intro page total
  refine ⟨fun offset size hsize hne hoffset => ?_, fun hnone => ?_⟩
  · have hpos := toNat_pos hne
    obtain ⟨hcurrent, hlast⟩ := Page.numbers_of_window (Page.bodyCount?_eq_some_iff.mpr hsize) hne
      (Page.getD_bodyCount?_from hoffset)
    have hmore : page.hasMore = true ↔ offset.toNat / size.toNat + 1 < page.last := by
      rw [hlast, Page.hasMore, decide_eq_true_iff, hcurrent, hlast]
      exact Page.numberAt_lt_pagesFor_iff hpos (Nat.le_of_lt_succ total.toNat_lt)
    have hleft : page.hasMore = true ↔
        (offset.toNat / size.toNat + 1) * size.toNat < total.toNat := by
      rw [hmore, hlast, Page.lt_pagesFor_iff hpos, or_iff_right (Nat.succ_ne_zero _)]
    have hdone : page.hasMore = false ↔
        total.toNat ≤ (offset.toNat / size.toNat + 1) * size.toNat := by
      rw [← Bool.not_eq_true, hleft, Nat.not_lt]
    refine ⟨?_, ?_, ?_, ?_, hleft, hmore, ?_, ?_⟩
    · rw [Page.numberWord?_map hne, hcurrent]
    · rw [Page.lastWord?_map hne, hlast]
    · rw [hcurrent]
      exact Page.numberAt_pos _ _
    · rw [hlast]
      exact Page.pagesFor_pos _ _
    · exact fun hend => Page.le_add_of_le_mul (hdone.mp hend)
    · intro haligned
      rw [hdone, Page.succ_mul_of_dvd haligned]
  · have hper := Page.perPage_eq_none hnone
    have hcurrent : page.current = 1 := by rw [Page.current, hper, Option.elim_none]
    have hlast : page.last = 1 := by rw [Page.last, hper, Option.elim_none]
    exact ⟨hcurrent, hlast, by rw [Page.hasMore, hcurrent, hlast]; rfl⟩

/-- The greatest count of hits on pages of one hit, at the greatest offset, and on one page. -/
theorem page_numbers_exact_greatest :
    let greatest : UInt64 := 18446744073709551615
    let found (body : Json) : SearchResult :=
      { took := 0, timedOut := false, shards := .null, totalHits := greatest, maxScore := none,
        hits := [], aggregations := .null, raw := .null, request := ⟨[("body", body)]⟩ }
    let windowed := found (.object [("from", .count greatest), ("size", .count 1)])
    let whole := found (.object [])
    windowed.request.BodyHas "size" 1 ∧ windowed.request.BodyHas "from" greatest ∧
      (1 : UInt64).toNat ∣ greatest.toNat ∧ (Page.ofResult windowed).hasMore = false ∧
      greatest.toNat ≤ greatest.toNat + (1 : UInt64).toNat ∧
      (Page.numberWord? greatest 1).map UInt64.toNat = some (Page.ofResult windowed).current ∧
      (∀ size, whole.request.BodyHas "size" size → size = 0) ∧ (Page.ofResult whole).last = 1 := by
  intro greatest found windowed whole
  have hsize : windowed.request.BodyHas "size" 1 := ⟨_, rfl, rfl⟩
  have hfrom : windowed.request.BodyHas "from" greatest := ⟨_, rfl, rfl⟩
  have hdvd : (1 : UInt64).toNat ∣ greatest.toNat := by decide
  have hnone : ∀ size, whole.request.BodyHas "size" size → size = 0 := by
    rintro size ⟨body, hbody, hsize⟩
    cases hbody
    cases hsize
  obtain ⟨hnumber, -, -, -, -, -, hend, haligned⟩ :=
    (page_numbers_exact windowed).1 greatest 1 hsize (by decide) (Or.inl hfrom)
  have hdone : (Page.ofResult windowed).hasMore = false := (haligned hdvd).mpr (by decide)
  exact ⟨hsize, hfrom, hdvd, hdone, hend hdone, hnumber, hnone,
    ((page_numbers_exact whole).2 hnone).2.1⟩

end DocSearch
