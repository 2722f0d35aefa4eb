import DocSearch.Proofs.Fields
import DocSearch.Proofs.Results
import DocSearch.Response.SearchResult

/-!
# Decoding the answer to a search

Which answers are search results, what is read of one that is, and which fault is reported of one
that is not. The parts of an answer that may be left out are described each by a relation between
what stands in its place, if anything does, and what is read there: `Sources`, `Lists`, `Totals`.

* `SearchResult.document_eq_ok_iff`, `SearchResult.document_eq_error_iff`: one hit.
* `SearchResult.sectionHits_eq_error_iff`, `SearchResult.sectionTotal_eq_error_iff`: the faults of
  the section of the hits. The first hit with a fault is the one that is reported.
* `SearchResult.read_of_alike`: answers that differ in how they tell the total.
* `decoder_accepts_grammar`: whole answers.
-/

namespace DocSearch

namespace SearchResult

/-! ## The grammar of answers -/

/-- The source of a hit: an absent one and null are empty. -/
inductive Sources : Option Json → Document → Prop
  | absent : Sources none []
  | null : Sources (some .null) []
  | object (fields : Document) : Sources (some (.object fields)) fields

/-- The list of the hits: an absent one is empty. -/
inductive Lists : Option Json → List Json → Prop
  | absent : Lists none []
  | array (items : List Json) : Lists (some (.array items)) items

/-- The total of the hits, which is not tracked if it is absent or null. It is a count, or an object
with a count as its value. -/
inductive Totals : Option Json → Option UInt64 → Prop
  | absent : Totals none none
  | null : Totals (some .null) none
  | count (n : UInt64) : Totals (some (.count n)) (some n)
  | value {fields : Json.Fields} {n : UInt64} (h : fields.get? "value" = some (.count n)) :
      Totals (some (.object fields)) (some n)

/-- A hit has an id, and its source can be read. -/
def IsHit (hit : Json) : Prop :=
  ∃ fields : Json.Fields, hit = .object fields ∧ (∃ id, fields.get? "_id" = some id) ∧
    ∃ source, Sources (fields.get? "_source") source

/-- The fields of the section of the hits. A section that is no object counts as an empty one. -/
def sectionFields (hits : Json) : Json.Fields :=
  match hits with
  | .object fields => fields
  | _ => []

/-- An object with a section of the hits, in which each hit and the total can be read. -/
def IsAnswer (raw : Json) : Prop :=
  ∃ (fields : Json.Fields) (hits : Json), raw = .object fields ∧ fields.get? "hits" = some hits ∧
    (∃ items, Lists ((sectionFields hits).get? "hits") items ∧ ∀ hit ∈ items, IsHit hit) ∧
    ∃ total, Totals ((sectionFields hits).get? "total") total

/-- The document of a hit is its source with its id and its score put in, null if it has none. -/
structure Shows (hit : Json) (document : Document) : Prop where
  id : ∃ id, hit.get? "_id" = some id ∧ document.get? "_id" = some id
  score : document.get? "_score" = some ((hit.get? "_score").getD .null)
  source : ∃ source, Sources (hit.get? "_source") source ∧
    ∀ key, key ≠ "_id" → key ≠ "_score" → document.get? key = source.get? key

/-- What a result holds of an answer with a section of the hits: the documents of the hits in their
order and the total, for which the hits are counted if it is not tracked, and the answer and the
request as they came. -/
structure Holds (raw hits : Json) (request : Request) (result : SearchResult) : Prop where
  section_eq : raw.get? "hits" = some hits
  documents : ∃ items, Lists ((sectionFields hits).get? "hits") items ∧
    List.Forall₂ Shows items result.hits
  total : ∃ total, Totals ((sectionFields hits).get? "total") total ∧
    result.totalHits = total.getD (.ofNat result.hits.length)
  raw_eq : result.raw = raw
  request_eq : result.request = request

/-! ## The faults of an answer -/

/-- What is wrong with a hit. Its source is looked at before its id. -/
inductive HitFault (hit : Json) : AnswerFault → Prop
  | source (h : ∀ source, ¬ Sources (hit.get? "_source") source) : HitFault hit .sourceNotObject
  | id {source : Document} (hsource : Sources (hit.get? "_source") source)
      (h : hit.get? "_id" = none) : HitFault hit .missingId

/-- What is wrong with a total. -/
inductive TotalFault : Option Json → AnswerFault → Prop
  | number {n : Json.Number} (h : ∀ count, n ≠ .natural count) :
      TotalFault (some (.number n)) .totalNotCount
  | value {fields : Json.Fields} (h : ∀ count, fields.get? "value" ≠ some (.count count)) :
      TotalFault (some (.object fields)) .totalValueNotCount
  | other {total : Json} (hnull : total ≠ .null) (hnumber : ∀ n, total ≠ .number n)
      (hobject : ∀ fields, total ≠ .object fields) : TotalFault (some total) .totalUnknown

/-- The first fault of an answer: a fault comes first if all that is looked at before it can be
read. -/
inductive FirstFault (raw : Json) : AnswerFault → Prop
  | missingHits (h : raw.get? "hits" = none) : FirstFault raw .missingHits
  | hitsNotArray {hits : Json} (hhits : raw.get? "hits" = some hits)
      (h : ∀ items, ¬ Lists ((sectionFields hits).get? "hits") items) :
      FirstFault raw .hitsNotArray
  | hit {hits hit : Json} {before after : List Json} {fault : AnswerFault}
      (hhits : raw.get? "hits" = some hits)
      (hitems : Lists ((sectionFields hits).get? "hits") (before ++ hit :: after))
      (hbefore : ∀ earlier ∈ before, IsHit earlier) (h : HitFault hit fault) :
      FirstFault raw fault
  | total {hits : Json} {items : List Json} {fault : AnswerFault}
      (hhits : raw.get? "hits" = some hits)
      (hitems : Lists ((sectionFields hits).get? "hits") items) (hall : ∀ hit ∈ items, IsHit hit)
      (h : TotalFault ((sectionFields hits).get? "total") fault) : FirstFault raw fault

/-! ## One hit -/

section Hit

variable {hit : Json} {fields made : Document} {fault : AnswerFault}

theorem source_eq_ok_iff : source hit = .ok fields ↔ Sources (hit.get? "_source") fields := by
  rw [source]
  constructor
  · intro h
    split at h <;> cases h <;> rename_i heq <;> rw [heq]
    · exact .absent
    · exact .null
    · exact .object _
  · intro h
    generalize hit.get? "_source" = held at h
    cases h <;> rfl

theorem source_eq_error_iff :
    source hit = .error fault ↔
      fault = .sourceNotObject ∧ ∀ fields, ¬ Sources (hit.get? "_source") fields := by
  simp only [← source_eq_ok_iff]
  unfold source
  split <;> simp [eq_comm]

theorem document_eq_ok_iff :
    document hit = .ok made ↔
      ∃ fields id, Sources (hit.get? "_source") fields ∧ hit.get? "_id" = some id ∧
        made = Json.Fields.insert "_score" ((hit.get? "_score").getD .null)
          (Json.Fields.insert "_id" id fields) := by
  simp only [document, bind_eq_ok_iff, source_eq_ok_iff]
  cases hit.get? "_id" with
  | none => simp
  | some id => simp [eq_comm]

theorem exists_document_iff : (∃ found, document hit = .ok found) ↔ IsHit hit := by
  simp only [document_eq_ok_iff, IsHit]
  constructor
  · rintro ⟨_, source, id, hsource, hid, -⟩
    obtain ⟨fields, rfl, hid⟩ := Json.get?_eq_some_iff.mp hid
    exact ⟨fields, rfl, ⟨id, hid⟩, source, hsource⟩
  · rintro ⟨fields, rfl, ⟨id, hid⟩, source, hsource⟩
    exact ⟨_, source, id, hsource, hid, rfl⟩

theorem document_eq_error_iff : document hit = .error fault ↔ HitFault hit fault := by
  rw [document]
  cases hsource : source hit with
  | error e =>
    obtain ⟨rfl, hnone⟩ := source_eq_error_iff.mp hsource
    constructor
    · intro h
      cases h
      exact .source hnone
    · intro h
      cases h with
      | source => rfl
      | id hfound => exact absurd hfound (hnone _)
  | ok fields =>
    have hfound := source_eq_ok_iff.mp hsource
    simp only [bind, Except.bind]
    cases hid : hit.get? "_id" with
    | none =>
      constructor
      · intro h
        cases h
        exact .id hfound hid
      · intro h
        cases h with
        | source hnone => exact absurd hfound (hnone _)
        | id => rfl
    | some id =>
      refine iff_of_false (by simp) ?_
      intro h
      cases h with
      | source hnone => exact absurd hfound (hnone _)
      | id _ hnone => cases hid.symm.trans hnone

theorem shows_of_document (h : document hit = .ok made) : Shows hit made := by
  obtain ⟨source, id, hsource, hid, rfl⟩ := document_eq_ok_iff.mp h
  refine ⟨⟨id, hid, ?_⟩, ?_, source, hsource, fun key hne hscore => ?_⟩
  · rw [Json.Fields.get?_insert, if_neg (by decide), Json.Fields.get?_insert, if_pos rfl]
  · rw [Json.Fields.get?_insert, if_pos rfl]
  · rw [Json.Fields.get?_insert, if_neg hscore, Json.Fields.get?_insert, if_neg hne]

end Hit

/-! ## The list of the hits -/

section Hits

variable {items : List Json} {found : List Document} {hits : Json} {fault : AnswerFault}

theorem documents_eq_mapM (items : List Json) : documents items = items.mapM document := by
  induction items with
  | nil => rfl
  | cons hit items ih => rw [documents, List.mapM_cons, ih]

theorem exists_documents_iff :
    (∃ found, documents items = .ok found) ↔ ∀ hit ∈ items, IsHit hit := by
  simp only [documents_eq_mapM, mapM_eq_ok_iff, ← exists_document_iff]
  exact ⟨fun ⟨_, h⟩ _ => exists_of_forall₂ h, exists_forall₂⟩

theorem documents_eq_error_iff :
    documents items = .error fault ↔
      ∃ before hit after, items = before ++ hit :: after ∧ HitFault hit fault ∧
        ∀ earlier ∈ before, IsHit earlier := by
  rw [documents_eq_mapM, ← errorOf?_eq_some_iff, errorOf?_mapM, List.findSome?_eq_some_iff]
  simp only [errorOf?_eq_some_iff, errorOf?_eq_none_iff, document_eq_error_iff, exists_document_iff]

theorem get?_eq_sectionFields (hits : Json) (key : String) :
    hits.get? key = (sectionFields hits).get? key := by
  cases hits <;> rfl

theorem sectionHits_eq_ok_iff :
    sectionHits hits = .ok found ↔
      ∃ items, Lists ((sectionFields hits).get? "hits") items ∧ documents items = .ok found := by
  rw [sectionHits, get?_eq_sectionFields]
  constructor
  · intro h
    split at h <;> rename_i heq <;> rw [heq]
    · exact ⟨[], .absent, h⟩
    · exact ⟨_, .array _, h⟩
    · cases h
  · rintro ⟨items, hitems, h⟩
    generalize (sectionFields hits).get? "hits" = held at hitems
    cases hitems <;> exact h

theorem sectionHits_eq_error_iff :
    sectionHits hits = .error fault ↔
      (fault = .hitsNotArray ∧ ∀ items, ¬ Lists ((sectionFields hits).get? "hits") items) ∨
        ∃ items, Lists ((sectionFields hits).get? "hits") items ∧
          documents items = .error fault := by
  rw [sectionHits, get?_eq_sectionFields]
  generalize (sectionFields hits).get? "hits" = held
  constructor
  · intro h
    split at h
    · cases h
    · exact Or.inr ⟨_, .array _, h⟩
    · rename_i hnone hother
      cases h
      refine Or.inl ⟨rfl, fun items hitems => ?_⟩
      cases hitems with
      | array => exact hother _ rfl
  · rintro (⟨rfl, hnone⟩ | ⟨items, hitems, h⟩)
    · split
      · exact absurd .absent (hnone _)
      · exact absurd (.array _) (hnone _)
      · rfl
    · cases hitems with
      | absent => cases h
      | array => exact h

end Hits

/-! ## The total -/

section Total

variable {hits : Json} {total : Option UInt64} {fault : AnswerFault}

theorem bind_asCount?_eq_some_iff {held : Option Json} {n : UInt64} :
    held.bind Json.asCount? = some n ↔ held = some (.count n) := by
  constructor
  · intro h
    obtain ⟨value, rfl, hcount⟩ := Option.bind_eq_some_iff.mp h
    unfold Json.asCount? at hcount
    split at hcount <;> cases hcount
    rfl
  · rintro rfl
    rfl

theorem sectionTotal_eq_ok_iff :
    sectionTotal hits = .ok total ↔ Totals ((sectionFields hits).get? "total") total := by
  rw [sectionTotal, get?_eq_sectionFields]
  generalize (sectionFields hits).get? "total" = held
  constructor
  · intro h
    split at h
    · cases h
      exact .absent
    · cases h
      exact .null
    · cases h
      exact .count _
    · cases h
    · split at h <;> cases h
      rename_i hcount
      exact .value (bind_asCount?_eq_some_iff.mp hcount)
    · cases h
  · intro h
    cases h with
    | absent => rfl
    | null => rfl
    | count n => rfl
    | value h => simp only [bind_asCount?_eq_some_iff.mpr h]

theorem sectionTotal_of_totals {told : Option Json} (h : hits.get? "total" = told)
    (htotal : Totals told total) : sectionTotal hits = .ok total := by
  rw [sectionTotal_eq_ok_iff, ← get?_eq_sectionFields, h]
  exact htotal

theorem sectionTotal_eq_error_iff :
    sectionTotal hits = .error fault ↔ TotalFault ((sectionFields hits).get? "total") fault := by
  rw [sectionTotal, get?_eq_sectionFields]
  generalize (sectionFields hits).get? "total" = held
  constructor
  · intro h
    split at h
    · cases h
    · cases h
    · cases h
    · rename_i n hn
      cases h
      exact .number hn
    · split at h <;> cases h
      rename_i hnone
      refine .value fun count hcount => ?_
      cases hnone.symm.trans (bind_asCount?_eq_some_iff.mpr hcount)
    · rename_i hnull hcount hnumber hobject
      cases h
      exact .other hnull hnumber hobject
  · intro h
    cases h with
    | @number n h =>
      cases n with
      | natural count => exact absurd rfl (h count)
      | _ => rfl
    | @value fields h =>
      have hnone : (fields.get? "value").bind Json.asCount? = none := by
        by_contra hsome
        obtain ⟨count, hcount⟩ := Option.ne_none_iff_exists'.mp hsome
        exact h count (bind_asCount?_eq_some_iff.mp hcount)
      simp only [hnone]
    | @other total hnull hnumber hobject =>
      cases total with
      | null => exact absurd rfl hnull
      | number n => exact absurd rfl (hnumber n)
      | object fields => exact absurd rfl (hobject fields)
      | _ => rfl

end Total

/-! ## Whole answers -/

section Read

variable {raw hits : Json} {request : Request} {result : SearchResult} {fault : AnswerFault}

/-- What is read of an answer is read of its section of the hits. -/
theorem exists_sections_of_read (h : read raw request = .ok result) :
    ∃ hits total, raw.get? "hits" = some hits ∧ sectionHits hits = .ok result.hits ∧
      sectionTotal hits = .ok total ∧ result.totalHits = total.getD (.ofNat result.hits.length) ∧
      result.raw = raw ∧ result.request = request := by
  cases hhits : raw.get? "hits" with
  | none => simp [read, hhits] at h
  | some hits =>
    simp only [read, hhits, bind_eq_ok_iff] at h
    obtain ⟨found, hfound, total, htotal, hresult⟩ := h
    cases hresult
    exact ⟨hits, total, rfl, hfound, htotal, rfl, rfl, rfl⟩

theorem exists_sectionHits_iff :
    (∃ found, sectionHits hits = .ok found) ↔
      ∃ items, Lists ((sectionFields hits).get? "hits") items ∧ ∀ hit ∈ items, IsHit hit := by
  simp only [sectionHits_eq_ok_iff, ← exists_documents_iff]
  exact ⟨fun ⟨found, items, hitems, h⟩ => ⟨items, hitems, found, h⟩,
    fun ⟨items, hitems, found, h⟩ => ⟨found, items, hitems, h⟩⟩

theorem exists_read_iff : (∃ result, read raw request = .ok result) ↔ IsAnswer raw := by
  constructor
  · rintro ⟨result, h⟩
    obtain ⟨hits, total, hhits, hfound, htotal, -⟩ := exists_sections_of_read h
    obtain ⟨fields, rfl, hfields⟩ := Json.get?_eq_some_iff.mp hhits
    exact ⟨fields, hits, rfl, hfields, exists_sectionHits_iff.mp ⟨_, hfound⟩, total,
      sectionTotal_eq_ok_iff.mp htotal⟩
  · rintro ⟨fields, hits, rfl, hfields, hitems, total, htotal⟩
    have hhits := Json.get?_eq_some_iff.mpr ⟨fields, rfl, hfields⟩
    obtain ⟨found, hfound⟩ := exists_sectionHits_iff.mpr hitems
    simp only [read, hhits, hfound, sectionTotal_eq_ok_iff.mpr htotal]
    exact ⟨_, rfl⟩

theorem holds_of_read (h : read raw request = .ok result) :
    ∃ hits, Holds raw hits request result := by
  obtain ⟨hits, total, hhits, hfound, htotal, hcount, hraw, hrequest⟩ := exists_sections_of_read h
  obtain ⟨items, hitems, hdocuments⟩ := sectionHits_eq_ok_iff.mp hfound
  rw [documents_eq_mapM, mapM_eq_ok_iff] at hdocuments
  exact ⟨hits, hhits, ⟨items, hitems, hdocuments.imp fun _ _ => shows_of_document⟩,
    ⟨total, sectionTotal_eq_ok_iff.mp htotal, hcount⟩, hraw, hrequest⟩

/-- An answer is refused for its section of the hits: it is missing, or its list cannot be read, or
its list can be read and its total cannot. -/
theorem read_eq_error_iff_sections :
    read raw request = .error fault ↔
      (raw.get? "hits" = none ∧ fault = .missingHits) ∨
        ∃ hits, raw.get? "hits" = some hits ∧ (sectionHits hits = .error fault ∨
          (∃ found, sectionHits hits = .ok found) ∧ sectionTotal hits = .error fault) := by
  cases h : raw.get? "hits" with
  | none => simp [read, h, eq_comm]
  | some hits =>
    cases hfound : sectionHits hits with
    | error e => simp [read, h, hfound, bind, Except.bind]
    | ok found =>
      cases htotal : sectionTotal hits with
      | error e => simp [read, h, hfound, htotal, bind, Except.bind]
      | ok total => simp [read, h, hfound, htotal, bind, Except.bind, pure, Except.pure]

theorem read_eq_error_iff : read raw request = .error fault ↔ FirstFault raw fault := by
  simp only [read_eq_error_iff_sections, sectionHits_eq_error_iff, documents_eq_error_iff,
    exists_sectionHits_iff, sectionTotal_eq_error_iff]
  constructor
  · rintro (⟨h, rfl⟩ | ⟨hits, hhits, (⟨rfl, h⟩ | ⟨_, hitems, before, hit, after, rfl, h, hbefore⟩) |
      ⟨⟨items, hitems, hall⟩, h⟩⟩)
    · exact .missingHits h
    · exact .hitsNotArray hhits h
    · exact .hit hhits hitems hbefore h
    · exact .total hhits hitems hall h
  · intro h
    cases h with
    | missingHits h => exact Or.inl ⟨h, rfl⟩
    | hitsNotArray hhits h => exact Or.inr ⟨_, hhits, Or.inl (Or.inl ⟨rfl, h⟩)⟩
    | hit hhits hitems hbefore h =>
      exact Or.inr ⟨_, hhits, Or.inl (Or.inr ⟨_, hitems, _, _, _, rfl, h, hbefore⟩)⟩
    | total hhits hitems hall h => exact Or.inr ⟨_, hhits, Or.inr ⟨⟨_, hitems, hall⟩, h⟩⟩

/-- An answer that has the like of another's section of the hits, and the same under all other keys,
is decoded alike, whatever the request is. -/
theorem decode_of_alike {other otherHits : Json} (request sent : Request)
    (h : raw.get? "hits" = some hits) (hother : other.get? "hits" = some otherHits)
    (hfound : sectionHits otherHits = sectionHits hits)
    (htotal : sectionTotal otherHits = sectionTotal hits)
    (hscore : sectionScore otherHits = sectionScore hits)
    (hrest : ∀ key, key ≠ "hits" → other.get? key = raw.get? key) :
    decode other sent =
      (decode raw request).map fun result => { result with raw := other, request := sent } := by
  have htook := hrest "took" (by decide)
  have htimedOut := hrest "timed_out" (by decide)
  have hshards := hrest "_shards" (by decide)
  have haggregations := hrest "aggregations" (by decide)
  simp only [decode, read, h, hother, hfound, htotal, hscore, htook, htimedOut, hshards,
    haggregations]
  cases sectionHits hits with
  | error e => rfl
  | ok found => cases sectionTotal hits <;> rfl

theorem decode_request {other : Request} (h : decode raw request = .ok result) :
    decode raw other = .ok { result with request := other } := by
  obtain ⟨hits, -, hhits, -, -, -, hraw, -⟩ := exists_sections_of_read (mapError_eq_ok_iff.mp h)
  rw [decode_of_alike request other hhits hhits rfl rfl rfl fun _ _ => rfl, h]
  obtain rfl := hraw
  rfl

/-- A total that is told by an object in place of a count. -/
theorem decode_of_told_total {fields told total : Json.Fields} {n : UInt64}
    (h : fields.get? "hits" = some (.object told)) (htotal : told.get? "total" = some (.count n))
    (hvalue : total.get? "value" = some (.count n)) :
    let other : Json := .object (Json.Fields.insert "hits"
      (.object (Json.Fields.insert "total" (.object total) told)) fields)
    decode other request =
      (decode (.object fields) request).map fun result => { result with raw := other } := by
  intro other
  let counted : Json := .object (Json.Fields.insert "total" (.object total) told)
  have hother : other.get? "hits" = some counted := Json.get?_object_insert.trans (if_pos rfl)
  have hrest : ∀ key, key ≠ "hits" → other.get? key = (Json.object fields).get? key :=
    fun key hkey => Json.get?_object_insert.trans (if_neg hkey)
  have htold : counted.get? "total" = some (.object total) :=
    Json.get?_object_insert.trans (if_pos rfl)
  have hsame : ∀ key, key ≠ "total" → counted.get? key = (Json.object told).get? key :=
    fun key hkey => Json.get?_object_insert.trans (if_neg hkey)
  have hfound : sectionHits counted = sectionHits (.object told) := by
    rw [sectionHits, sectionHits, hsame "hits" (by decide)]
  have hscore : sectionScore counted = sectionScore (.object told) := by
    rw [sectionScore, sectionScore, hsame "max_score" (by decide)]
  have hplain : (Json.object told).get? "total" = some (.count n) := htotal
  have htotals : sectionTotal counted = sectionTotal (.object told) := by
    rw [sectionTotal_of_totals htold (.value hvalue), sectionTotal_of_totals hplain (.count n)]
  have hhits : (Json.object fields).get? "hits" = some (.object told) := h
  have halike := decode_of_alike request request hhits hother hfound htotals hscore hrest
  rw [halike]
  cases hdecode : decode (.object fields) request with
  | error e => rfl
  | ok result =>
    obtain ⟨_, hholds⟩ := holds_of_read (mapError_eq_ok_iff.mp hdecode)
    obtain rfl := hholds.request_eq
    rfl

end Read

end SearchResult

open SearchResult in
/-- **The decoder accepts its grammar.** An answer is decoded exactly if it is an object with a
section of the hits, in which the list of the hits and the total can be read: the list is absent or
an array of objects with an id, and with a source that is absent, null or an object; the total is
absent, null, a count, or an object with a count as its value. The result has one document for each
hit, in their order. A fault that is reported is the first: of the section of the hits, of the list,
of the hits in their order, of the total. A total that is told by an object in place of a count
changes nothing but the answer that is kept. -/
theorem decoder_accepts_grammar (raw : Json) (request : Request) :
    ((∃ result, decode raw request = .ok result) ↔ IsAnswer raw) ∧
      (∀ result, decode raw request = .ok result → ∃ hits, Holds raw hits request result) ∧
      (∀ e, decode raw request = .error e ↔ ∃ fault, e = .malformed fault ∧ FirstFault raw fault) ∧
      ∀ (fields hits total : Json.Fields) (n : UInt64), raw = .object fields →
        fields.get? "hits" = some (.object hits) → hits.get? "total" = some (.count n) →
        total.get? "value" = some (.count n) →
        let other : Json := .object (Json.Fields.insert "hits"
          (.object (Json.Fields.insert "total" (.object total) hits)) fields)
        decode other request =
          (decode raw request).map fun result => { result with raw := other } := by
  refine ⟨?_, fun result h => holds_of_read (mapError_eq_ok_iff.mp h), fun e => ?_, ?_⟩
  · simp only [decode, mapError_eq_ok_iff]
    exact exists_read_iff
  · simp only [decode, mapError_eq_error_iff, read_eq_error_iff, and_comm]
  · rintro fields hits total n rfl hhits htotal hvalue
    exact decode_of_told_total hhits htotal hvalue

open SearchResult in
/-- The second of two hits and the total cannot be read; with the first hit alone, the total can be
told in two ways. -/
theorem decoder_accepts_grammar_hits :
    let sourceless : Json := .object [("_id", .text "1"), ("_source", .null)]
    let nameless : Json := .object [("_source", .count 5)]
    let faulty : Json := .object
      [("hits", .object [("hits", .array [sourceless, nameless]), ("total", .text "many")])]
    let told : Json.Fields := [("hits", .array [sourceless]), ("total", .count 3)]
    let total : Json.Fields := [("relation", .text "gte"), ("value", .count 3)]
    let raw : Json := .object [("hits", .object told)]
    let other : Json := .object
      [("hits", .object [("hits", .array [sourceless]), ("total", .object total)])]
    decode faulty {} = .error (.malformed .sourceNotObject) ∧
      ∃ result, decode raw {} = .ok result ∧ (∃ hits, Holds raw hits {} result) ∧
        result.hits = [[("_id", .text "1"), ("_score", .null)]] ∧ result.totalHits = 3 ∧
        decode other {} = .ok { result with raw := other } := by
  intro sourceless nameless faulty told total raw other
  obtain ⟨-, -, hfaults, -⟩ := decoder_accepts_grammar faulty {}
  obtain ⟨-, hholds, -, htold⟩ := decoder_accepts_grammar raw {}
  have hfault : FirstFault faulty .sourceNotObject := by
    have hitems : Lists (some (.array [sourceless, nameless])) ([sourceless] ++ nameless :: []) :=
      .array _
    refine .hit rfl hitems ?_ (.source ?_)
    · simpa using ⟨_, rfl, ⟨_, rfl⟩, _, .null⟩
    · rintro source ⟨⟩
  refine ⟨(hfaults _).mpr ⟨_, rfl, hfault⟩, _, rfl, hholds _ rfl, rfl, rfl, ?_⟩
  exact htold _ told total 3 rfl rfl rfl rfl

end DocSearch
