import DocSearch.CommandLine.Explain
import DocSearch.Proofs.ValueReading
import Mathlib.Data.List.Induction

/-!
# The texts of requests

A request is made by edits of its parameters, in any order. Both of its texts are descriptions,
and are read as the object of the request. Hence its text without blanks is its normal form: two
requests have the same text exactly if they are equal, which is to say that their edits leave the
same value under every name.

* `Request.ordered_iff_exists_made`, `Request.get?_made`: what edits make of a request.
* `CommandLine.request_texts_read_back`: the two texts are read back, and tell requests apart.
-/

namespace DocSearch

open Json

/-! ## Edits -/

/-- A change of the parameters of a request. -/
inductive Request.Edit where
  | insert (name : String) (value : Json)
  | erase (name : String)

namespace Request.Edit

def name : Edit → String
  | .insert name _ => name
  | .erase name => name

/-- What stands under the name of an edit after it. -/
def value? : Edit → Option Json
  | .insert _ value => some value
  | .erase _ => none

end Request.Edit

namespace Request

def edit (r : Request) : Edit → Request
  | .insert name value => r.insert name value
  | .erase name => r.erase name

/-- The request that edits make, one after the other. -/
def made (edits : List Edit) : Request := edits.foldl edit {}

/-- What the last edit of a name leaves there. -/
def left? (edits : List Edit) (name : String) : Option Json :=
  (edits.reverse.find? fun edit => name = edit.name).bind Edit.value?

/-- The fields of all objects in the request are ascending. -/
abbrev Ordered (r : Request) : Prop := r.toJson.Ordered

variable {r s : Request} {edits : List Edit} {e : Edit} {name : String}

theorem ordered_empty : Ordered {} := .object .nil (List.forall_mem_nil _)

theorem Ordered.insert {value : Json} (h : r.Ordered) (hvalue : value.Ordered) :
    (r.insert name value).Ordered := by
  obtain ⟨hkeys, hfields⟩ := ordered_object_iff.mp h
  refine .object (Fields.ascending_insert hkeys) fun param hparam => ?_
  rcases Fields.mem_insert hparam with rfl | hparam
  · exact hvalue
  · exact hfields param hparam

theorem Ordered.insert? {value : Option Json} (h : r.Ordered)
    (hvalue : ∀ v ∈ value, v.Ordered) : (r.insert? name value).Ordered := by
  cases value with
  | none => exact h
  | some v => exact h.insert (hvalue v rfl)

theorem Ordered.erase (h : r.Ordered) : (r.erase name).Ordered := by
  obtain ⟨hkeys, hfields⟩ := ordered_object_iff.mp h
  refine .object (Fields.ascending_erase hkeys) fun param hparam => ?_
  exact hfields param (Fields.mem_erase.mp hparam).1

theorem Ordered.edit (h : r.Ordered) (he : ∀ value ∈ e.value?, value.Ordered) :
    (r.edit e).Ordered := by
  cases e with
  | insert name value => exact h.insert (he value rfl)
  | erase name => exact h.erase

/-- Edits with ordered values make an ordered request. -/
theorem ordered_made (h : ∀ e ∈ edits, ∀ value ∈ e.value?, value.Ordered) :
    (made edits).Ordered :=
  List.foldlRecOn edits edit ordered_empty fun _ hr e he => hr.edit (h e he)

/-- An ordered request is made by the insertions of its parameters. -/
theorem made_insert_of_ordered (h : r.Ordered) :
    made (r.params.map fun param => .insert param.1 param.2) = r := by
  have hfold : ∀ (params : Fields) (start : Request),
      (params.map fun param => Edit.insert param.1 param.2).foldl edit start =
        ⟨params.foldl (fun fields a => Fields.insert a.1 a.2 fields) start.params⟩ := by
    intro params
    induction params with
    | nil => exact fun _ => rfl
    | cons param params ih => exact fun start => ih (start.insert param.1 param.2)
  obtain ⟨hkeys, -⟩ := ordered_object_iff.mp h
  rw [made, hfold]
  exact congrArg Request.mk (Fields.ofList_of_ascending hkeys)

/-- The ordered requests are those that edits with ordered values make. -/
theorem ordered_iff_exists_made :
    r.Ordered ↔ ∃ edits, (∀ e ∈ edits, ∀ value ∈ e.value?, value.Ordered) ∧ made edits = r := by
  refine ⟨fun h => ⟨_, ?_, made_insert_of_ordered h⟩, fun ⟨edits, hedits, hmade⟩ => ?_⟩
  · intro e he value hvalue
    obtain ⟨param, hparam, rfl⟩ := List.mem_map.mp he
    cases hvalue
    exact (ordered_object_iff.mp h).2 param hparam
  · exact hmade ▸ ordered_made hedits

theorem get?_edit :
    (r.edit e).get? name = if name = e.name then e.value? else r.get? name := by
  cases e with
  | insert other value => exact Fields.get?_insert
  | erase other => exact Fields.get?_erase

theorem left?_concat :
    left? (edits ++ [e]) name = if name = e.name then e.value? else left? edits name := by
  rw [left?, List.reverse_append]
  by_cases h : name = e.name <;> simp [left?, h]

/-- Under every name stands what the last edit of the name left there. -/
theorem get?_made (edits : List Edit) (name : String) :
    (made edits).get? name = left? edits name := by
  induction edits using List.reverseRecOn with
  | nil => rfl
  | append_singleton edits e ih =>
    have hmade : made (edits ++ [e]) = (made edits).edit e := List.foldl_concat ..
    rw [hmade, get?_edit, left?_concat, ih]

theorem eq_iff_get? (hr : r.Ordered) (hs : s.Ordered) :
    r = s ↔ ∀ name, r.get? name = s.get? name := by
  refine ⟨fun h name => h ▸ rfl, fun h => ?_⟩
  obtain ⟨hkeys, -⟩ := ordered_object_iff.mp hr
  obtain ⟨hothers, -⟩ := ordered_object_iff.mp hs
  exact congrArg Request.mk (Fields.eq_of_get? hkeys hothers h)

theorem begins_compact (r : Request) : ∃ cs, r.compact.toList = '{' :: cs := by
  obtain ⟨params⟩ := r
  cases params <;> exact ⟨_, String.toList_ofList⟩

theorem begins_pretty (r : Request) : ∃ cs, r.pretty.toList = '{' :: cs := by
  obtain ⟨params⟩ := r
  cases params <;> exact ⟨_, String.toList_ofList⟩

/-- The text of a request keeps all of it: its numbers are whole, and it nests no deeper than
descriptions may. -/
structure Plain (r : Request) : Prop where
  whole : r.toJson.Numbers Number.IsWhole
  shallow : r.toJson.depth ≤ Reader.greatestDepth

theorem Plain.numbers (h : r.Plain) : r.toJson.Numbers Number.ReadsBack :=
  h.whole.mono fun _ => Number.readsBack_of_isWhole

theorem read?_compact (hordered : r.Ordered) (hplain : r.Plain) :
    read? r.compact = some r.toJson := by
  rw [read?_eq_readWithin?]
  exact readWithin?_compact hordered hplain.numbers hplain.shallow

theorem read?_pretty (hordered : r.Ordered) (hplain : r.Plain) :
    read? r.pretty = some r.toJson := by
  have hread := readWithin?_pretty (List.forall_mem_nil _) hordered hplain.numbers hplain.shallow
  rwa [String.ofList_nil, String.append_empty] at hread

/-- The text without blanks is a normal form. -/
theorem compact_inj (hr : r.Ordered) (hs : s.Ordered) (hrplain : r.Plain) (hsplain : s.Plain) :
    r.compact = s.compact ↔ r = s := by
  refine ⟨fun h => ?_, fun h => h ▸ rfl⟩
  have hread : some r.toJson = some s.toJson := by
    rw [← read?_compact hr hrplain, ← read?_compact hs hsplain, h]
  exact congrArg Request.mk (Json.object.inj (Option.some.inj hread))

end Request

/-! ## Texts as descriptions -/

namespace CommandLine

theorem parseDescription_of_read? {text : String} {cs : List Char} {fields : Fields}
    (hbegins : text.toList = '{' :: cs) (hread : read? text = some (.object fields)) :
    parseDescription text = .ok (.object fields) := by
  have hblank : text.toList.all Text.isBlank = false :=
    List.all_eq_false.mpr ⟨'{', hbegins ▸ List.mem_cons_self, by decide⟩
  simp [parseDescription, hblank, hread]

/-- **Requests and their texts.** Let the numbers of requests be whole, and let them nest no deeper
than descriptions may. Each of the two texts of a request is read as the object of the request.
Requests that are made by edits have the same bytes of text exactly if they are equal, and this
is so exactly if their edits leave the same value under every name. -/
theorem request_texts_read_back :
    (∀ r : Request, r.Ordered → r.Plain →
      parseDescription r.compact = .ok r.toJson ∧ parseDescription r.pretty = .ok r.toJson) ∧
    ∀ edits others : List Request.Edit,
      (∀ e ∈ edits, ∀ value ∈ e.value?, value.Ordered) →
      (∀ e ∈ others, ∀ value ∈ e.value?, value.Ordered) →
      (Request.made edits).Plain → (Request.made others).Plain →
        ((Request.made edits).compact.toUTF8 = (Request.made others).compact.toUTF8 ↔
          Request.made edits = Request.made others) ∧
        (Request.made edits = Request.made others ↔
          ∀ name, Request.left? edits name = Request.left? others name) := by
  refine ⟨fun r hordered hplain => ⟨?_, ?_⟩, ?_⟩
  · obtain ⟨cs, hbegins⟩ := r.begins_compact
    exact parseDescription_of_read? hbegins (Request.read?_compact hordered hplain)
  · obtain ⟨cs, hbegins⟩ := r.begins_pretty
    exact parseDescription_of_read? hbegins (Request.read?_pretty hordered hplain)
  · intro edits others hedits hothers hplain hothersPlain
    have hmade := Request.ordered_made hedits
    have hothersMade := Request.ordered_made hothers
    refine ⟨String.toByteArray_inj.trans ?_, ?_⟩
    · exact Request.compact_inj hmade hothersMade hplain hothersPlain
    · rw [Request.eq_iff_get? hmade hothersMade]
      simp only [Request.get?_made]

/-- A request with the greatest and the least whole number, with empty containers and escaped
characters; it is made in two ways. -/
theorem request_texts_read_back_remade :
    let body : Json := .object [
      ("limits", .array [.number (.natural 18446744073709551615),
        .number (.negative ⟨9223372036854775807, by decide⟩), .array [], .object []]),
      ("note", .text "\"é\\\n")]
    let edits : List Request.Edit :=
      [.insert "index" (.text "users"), .insert "body" body]
    let others : List Request.Edit :=
      [.insert "body" .null, .insert "id" (.text "7"), .insert "body" body, .erase "id",
        .insert "index" (.text "users")]
    let r : Request := ⟨[("body", body), ("index", .text "users")]⟩
    r.Ordered ∧ r.Plain ∧ Request.made edits = r ∧ Request.made others = r ∧
      parseDescription r.compact = .ok r.toJson ∧ parseDescription r.pretty = .ok r.toJson ∧
      (Request.made edits).compact.toUTF8 = (Request.made others).compact.toUTF8 := by
  intro body edits others r
  have hbody : body.Ordered := by
    refine .object (by decide) ?_
    simp [Fields.Ascending]
  have hwhole : body.Numbers Number.IsWhole := by simp [body, Number.IsWhole]
  have hedits : ∀ e ∈ edits, ∀ value ∈ e.value?, value.Ordered := by
    simp [edits, Request.Edit.value?, hbody]
  have hothers : ∀ e ∈ others, ∀ value ∈ e.value?, value.Ordered := by
    simp [others, Request.Edit.value?, hbody]
  have hmade : Request.made edits = r := rfl
  have hmadeOthers : Request.made others = r := rfl
  have hordered : r.Ordered := hmade ▸ Request.ordered_made hedits
  have hplain : r.Plain := ⟨by simp [r, Request.toJson, hwhole], by decide⟩
  obtain ⟨hread, htexts⟩ := request_texts_read_back
  obtain ⟨hcompact, hpretty⟩ := hread r hordered hplain
  obtain ⟨hbytes, -⟩ := htexts edits others hedits hothers hplain hplain
  exact ⟨hordered, hplain, hmade, hmadeOthers, hcompact, hpretty, hbytes.mpr rfl⟩

end CommandLine

end DocSearch
