import DocSearch.Json.Basic
import Mathlib.Data.List.Basic

/-!
# Fields of objects

What an insertion and an erasure do to the fields of an object, said of the look-up of a key
(`get?_insert`, `get?_erase`) and of the fields that are there (`mem_insert`, `mem_erase`).
None of it asks that the fields are in order. Only an object has anything under a key
(`Json.get?_eq_some_iff`).
-/

namespace DocSearch

theorem lookup_cons_eq {α : Type} (name : String) (entry : String × α)
    (rest : List (String × α)) :
    (entry :: rest).lookup name = if name = entry.1 then some entry.2 else rest.lookup name := by
  obtain ⟨key, held⟩ := entry
  by_cases h : name = key
  · simp [h]
  · simp [List.lookup_cons, h, beq_eq_false_iff_ne.mpr h]

namespace Json

theorem get?_eq_some_iff {j value : Json} {key : String} :
    j.get? key = some value ↔
      ∃ fields : Fields, j = .object fields ∧ fields.get? key = some value := by
  cases j <;> simp [get?, asObject?]

namespace Fields

variable {fields : Fields} {key other : String} {value : Json} {field : String × Json}

theorem get?_cons :
    get? (field :: fields) key = if key = field.1 then some field.2 else get? fields key :=
  lookup_cons_eq key field fields

theorem mem_of_get? (h : get? fields key = some value) : (key, value) ∈ fields := by
  obtain ⟨front, back, rfl, -⟩ := List.lookup_eq_some_iff.mp h
  exact List.mem_append_right _ List.mem_cons_self

theorem get?_insert :
    get? (insert key value fields) other =
      if other = key then some value else get? fields other := by
  induction fields with
  | nil => exact get?_cons
  | cons next fields ih =>
    rw [insert]
    by_cases hlt : key < next.1
    · rw [if_pos hlt, get?_cons]
    · rw [if_neg hlt]
      by_cases heq : key = next.1
      · rw [if_pos heq, get?_cons, get?_cons]
        by_cases hother : other = key
        · rw [if_pos hother, if_pos hother]
        · rw [if_neg hother, if_neg hother, if_neg (heq ▸ hother)]
      · rw [if_neg heq, get?_cons, get?_cons, ih]
        by_cases hother : other = key
        · have hne : other ≠ next.1 := hother ▸ heq
          simp only [if_pos hother, if_neg hne]
        · simp only [if_neg hother]

theorem mem_insert (h : field ∈ insert key value fields) :
    field = (key, value) ∨ field ∈ fields := by
  induction fields with
  | nil => exact Or.inl (List.mem_singleton.mp h)
  | cons next fields ih =>
    rw [insert] at h
    split at h
    · exact List.mem_cons.mp h
    · split at h
      · exact (List.mem_cons.mp h).imp_right (List.mem_cons_of_mem _)
      · rcases List.mem_cons.mp h with rfl | h
        · exact Or.inr List.mem_cons_self
        · exact (ih h).imp_right (List.mem_cons_of_mem _)

theorem get?_erase :
    get? (erase key fields) other = if other = key then none else get? fields other := by
  induction fields with
  | nil => simp [erase, get?]
  | cons next fields ih =>
    rw [erase] at ih
    rw [erase, List.filter_cons]
    by_cases hkey : next.1 = key
    · rw [if_neg (by simpa using hkey), ih, get?_cons, hkey]
      by_cases hother : other = key
      · rw [if_pos hother, if_pos hother]
      · rw [if_neg hother, if_neg hother, if_neg hother]
    · rw [if_pos (by simpa using hkey), get?_cons, ih, get?_cons]
      by_cases hother : other = key
      · rw [if_neg (hother ▸ Ne.symm hkey), if_pos hother, if_pos hother]
      · rw [if_neg hother, if_neg hother]

theorem mem_erase : field ∈ erase key fields ↔ field ∈ fields ∧ field.1 ≠ key := by
  simp [erase]

end Fields

theorem get?_object_insert {fields : Fields} {key other : String} {value : Json} :
    (Json.object (Fields.insert key value fields)).get? other =
      if other = key then some value else (Json.object fields).get? other :=
  Fields.get?_insert

end Json

end DocSearch
