import DocSearch.Proofs.Fields
import Mathlib.Data.List.Induction
import Mathlib.Data.List.Nodup

/-!
# The shape of values

What may be said of a value as a whole: that the fields of its objects stand in the order of their
keys, that its numbers have a property, and how deep it nests. The fields of an object that is
made by insertions and erasures are in order, and putting ascending fields together again changes
nothing.

* `Json.induction`: induction on values.
* `Fields.ofList_of_ascending`, `Fields.ascending_insert`, `Fields.ascending_erase`,
  `Fields.eq_of_get?`: ascending fields.
-/

namespace DocSearch.Json

/-! ## What is said of a value -/

/-- Induction on values: an array may assume the statement for each of its items, and an object for
the value of each of its fields. -/
@[elab_as_elim]
theorem induction {motive : Json → Prop} (null : motive .null) (bool : ∀ b, motive (.bool b))
    (number : ∀ n, motive (.number n)) (text : ∀ s, motive (.text s))
    (array : ∀ items, (∀ item ∈ items, motive item) → motive (.array items))
    (object : ∀ fields, (∀ field ∈ fields, motive field.2) → motive (.object fields)) :
    ∀ j, motive j
  | .null => null
  | .bool b => bool b
  | .number n => number n
  | .text s => text s
  | .array items => array items fun item _ => induction null bool number text array object item
  | .object fields =>
    object fields fun field _ => induction null bool number text array object field.2
termination_by j => sizeOf j
decreasing_by
  · have := List.sizeOf_lt_of_mem ‹item ∈ items›
    simp only [Json.array.sizeOf_spec]
    omega
  · have := List.sizeOf_lt_of_mem ‹field ∈ fields›
    obtain ⟨key, value⟩ := field
    simp only [Json.object.sizeOf_spec, Prod.mk.sizeOf_spec] at *
    omega

/-- The fields of an object stand in the order of their keys, with one field for a key. -/
def Fields.Ascending (fields : Fields) : Prop := fields.Pairwise fun a b => a.1 < b.1

instance (fields : Fields) : Decidable fields.Ascending :=
  inferInstanceAs (Decidable (fields.Pairwise fun a b => a.1 < b.1))

/-- The fields of all objects in a value are ascending. -/
inductive Ordered : Json → Prop
  | null : Ordered .null
  | bool (b : Bool) : Ordered (.bool b)
  | number (n : Number) : Ordered (.number n)
  | text (s : String) : Ordered (.text s)
  | array {items : List Json} (hitems : ∀ item ∈ items, Ordered item) : Ordered (.array items)
  | object {fields : Fields} (hkeys : fields.Ascending)
      (hfields : ∀ field ∈ fields, Ordered field.2) : Ordered (.object fields)

/-- All numbers in a value have a property. -/
inductive Numbers (P : Number → Prop) : Json → Prop
  | null : Numbers P .null
  | bool (b : Bool) : Numbers P (.bool b)
  | number {n : Number} (h : P n) : Numbers P (.number n)
  | text (s : String) : Numbers P (.text s)
  | array {items : List Json} (hitems : ∀ item ∈ items, Numbers P item) :
      Numbers P (.array items)
  | object {fields : Fields} (hfields : ∀ field ∈ fields, Numbers P field.2) :
      Numbers P (.object fields)

section

variable {items : List Json} {fields : Fields} {P : Number → Prop} {n : Number}

attribute [simp] Ordered.null Ordered.bool Ordered.number Ordered.text Numbers.null Numbers.bool
  Numbers.text

@[simp] theorem ordered_array_iff : Ordered (.array items) ↔ ∀ item ∈ items, item.Ordered :=
  ⟨fun | .array hitems => hitems, .array⟩

@[simp] theorem ordered_object_iff :
    Ordered (.object fields) ↔ fields.Ascending ∧ ∀ field ∈ fields, field.2.Ordered :=
  ⟨fun | .object hkeys hfields => ⟨hkeys, hfields⟩, fun h => .object h.1 h.2⟩

@[simp] theorem numbers_number_iff : Numbers P (.number n) ↔ P n :=
  ⟨fun | .number h => h, .number⟩

@[simp] theorem numbers_array_iff :
    Numbers P (.array items) ↔ ∀ item ∈ items, item.Numbers P :=
  ⟨fun | .array hitems => hitems, .array⟩

@[simp] theorem numbers_object_iff :
    Numbers P (.object fields) ↔ ∀ field ∈ fields, field.2.Numbers P :=
  ⟨fun | .object hfields => hfields, .object⟩

end

mutual

/-- How many arrays and objects stand inside one another. -/
def depth : Json → Nat
  | .array items => depthItems items + 1
  | .object fields => depthFields fields + 1
  | _ => 0

def depthItems : List Json → Nat
  | [] => 0
  | item :: items => max item.depth (depthItems items)

def depthFields : List (String × Json) → Nat
  | [] => 0
  | (_, value) :: fields => max value.depth (depthFields fields)

end

theorem depth_le_depthItems {items : List Json} {item : Json} (h : item ∈ items) :
    item.depth ≤ depthItems items := by
  induction items with
  | nil => cases h
  | cons first items ih =>
    rw [depthItems]
    rcases List.mem_cons.mp h with rfl | h
    · omega
    · have := ih h
      omega

theorem depth_le_depthFields {fields : Fields} {field : String × Json} (h : field ∈ fields) :
    field.2.depth ≤ depthFields fields := by
  induction fields with
  | nil => cases h
  | cons first fields ih =>
    obtain ⟨key, value⟩ := first
    rw [depthFields]
    rcases List.mem_cons.mp h with rfl | h
    · simp only
      omega
    · have := ih h
      omega

theorem Numbers.mono {P Q : Number → Prop} (hPQ : ∀ n, P n → Q n) {j : Json} (h : j.Numbers P) :
    j.Numbers Q := by
  induction j using Json.induction with
  | null => exact .null
  | bool b => exact .bool b
  | text s => exact .text s
  | number n => exact .number (hPQ n (numbers_number_iff.mp h))
  | array items ih =>
    have hitems := numbers_array_iff.mp h
    exact .array fun item hitem => ih item hitem (hitems item hitem)
  | object fields ih =>
    have hfields := numbers_object_iff.mp h
    exact .object fun field hfield => ih field hfield (hfields field hfield)

/-! ## Ascending fields -/

namespace Fields

variable {fields others : Fields} {key : String} {value : Json}

theorem ascending_iff_keys : fields.Ascending ↔ (fields.map Prod.fst).Pairwise (· < ·) :=
  List.pairwise_map.symm

theorem insert_of_all_lt (h : ∀ field ∈ fields, field.1 < key) :
    insert key value fields = fields ++ [(key, value)] := by
  induction fields with
  | nil => rfl
  | cons next fields ih =>
    have hnext := h next List.mem_cons_self
    have hrest := ih fun field hfield => h field (List.mem_cons_of_mem _ hfield)
    rw [insert, if_neg (String.lt_asymm hnext), if_neg (String.ne_of_lt hnext).symm, hrest]
    rfl

/-- Assignments with ascending keys are the fields that they make. -/
theorem ofList_of_ascending (h : fields.Ascending) : ofList fields = fields := by
  have hfold : ∀ others : Fields, (others ++ fields).Ascending →
      fields.foldl (fun made a => insert a.1 a.2 made) others = others ++ fields := by
    induction fields with
    | nil => simp
    | cons next fields ih =>
      intro others hothers
      have hlt : ∀ field ∈ others, field.1 < next.1 := fun field hfield =>
        (List.pairwise_append.mp hothers).2.2 field hfield next List.mem_cons_self
      have hsplit : others ++ next :: fields = others ++ [next] ++ fields := by simp
      rw [List.foldl_cons, insert_of_all_lt hlt, hsplit]
      exact ih h.of_cons _ (hsplit ▸ hothers)
  exact hfold [] h

theorem ascending_insert (h : fields.Ascending) : (insert key value fields).Ascending := by
  induction fields with
  | nil => exact List.pairwise_singleton _ _
  | cons next fields ih =>
    obtain ⟨hnext, hrest⟩ := List.pairwise_cons.mp h
    rw [insert]
    split
    · rename_i hlt
      refine List.pairwise_cons.mpr ⟨?_, h⟩
      rintro field hfield
      rcases List.mem_cons.mp hfield with rfl | hfield
      · exact hlt
      · exact String.lt_trans hlt (hnext field hfield)
    · rename_i hge
      split
      · rename_i heq
        exact List.pairwise_cons.mpr ⟨heq ▸ hnext, hrest⟩
      · rename_i hne
        have hlt : next.1 < key := by
          by_contra hnot
          exact hne (String.le_antisymm (String.not_lt.mp hnot) (String.not_lt.mp hge))
        refine List.pairwise_cons.mpr ⟨?_, ih hrest⟩
        intro field hfield
        rcases mem_insert hfield with rfl | hfield
        · exact hlt
        · exact hnext field hfield

theorem ofList_concat (assignments : List (String × Json)) (a : String × Json) :
    ofList (assignments ++ [a]) = insert a.1 a.2 (ofList assignments) :=
  List.foldl_concat ..

theorem ascending_ofList (assignments : List (String × Json)) : (ofList assignments).Ascending :=
  List.foldlRecOn assignments _ .nil fun _ h _ _ => ascending_insert h

theorem insert_perm (h : ∀ field ∈ fields, field.1 ≠ key) :
    (insert key value fields).Perm ((key, value) :: fields) := by
  induction fields with
  | nil => exact .rfl
  | cons next fields ih =>
    obtain ⟨hnext, hfields⟩ := List.forall_mem_cons.mp h
    rw [insert]
    split
    · exact .rfl
    · rw [if_neg hnext.symm]
      exact ((ih hfields).cons next).trans (.swap ..)

/-- Assignments to different keys are the fields that they make, up to their order. -/
theorem ofList_perm {assignments : List (String × Json)}
    (h : (assignments.map Prod.fst).Nodup) : (ofList assignments).Perm assignments := by
  induction assignments using List.reverseRecOn with
  | nil => exact .rfl
  | append_singleton assignments a ih =>
    rw [List.map_append, List.nodup_append] at h
    obtain ⟨hnodup, -, hdisjoint⟩ := h
    have hperm := ih hnodup
    have hnew : ∀ field ∈ ofList assignments, field.1 ≠ a.1 := fun field hfield =>
      hdisjoint _ (List.mem_map_of_mem (hperm.mem_iff.mp hfield)) _ List.mem_cons_self
    rw [ofList_concat]
    exact (insert_perm hnew).trans ((hperm.cons a).trans (List.perm_append_singleton a _).symm)

theorem ascending_erase (h : fields.Ascending) : (erase key fields).Ascending :=
  h.filter _

theorem get?_eq_some_iff_of_ascending (h : fields.Ascending) :
    get? fields key = some value ↔ (key, value) ∈ fields := by
  refine ⟨mem_of_get?, fun hmem => ?_⟩
  induction fields with
  | nil => cases hmem
  | cons next fields ih =>
    obtain ⟨hnext, hrest⟩ := List.pairwise_cons.mp h
    rw [get?_cons]
    rcases List.mem_cons.mp hmem with rfl | hmem
    · exact if_pos rfl
    · have hne : key ≠ next.1 := (String.ne_of_lt (hnext _ hmem)).symm
      rw [if_neg hne]
      exact ih hrest hmem

/-- Ascending fields are told apart by the look-up of some key. -/
theorem eq_of_get? (h : fields.Ascending) (hothers : others.Ascending)
    (hget : ∀ key, get? fields key = get? others key) : fields = others := by
  have hmem : ∀ field, field ∈ fields ↔ field ∈ others := by
    rintro ⟨key, value⟩
    rw [← get?_eq_some_iff_of_ascending h, ← get?_eq_some_iff_of_ascending hothers, hget]
  have hirrefl : Std.Irrefl fun a b : String × Json => a.1 < b.1 := ⟨fun a => String.lt_irrefl a.1⟩
  have hperm : fields.Perm others := (List.perm_ext_iff_of_nodup h.nodup hothers.nodup).mpr hmem
  refine hperm.eq_of_pairwise ?_ h hothers
  intro a b _ _ hab hba
  exact absurd hba (String.lt_asymm hab)

end Fields

end DocSearch.Json
