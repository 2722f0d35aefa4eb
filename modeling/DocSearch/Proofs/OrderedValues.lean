import DocSearch.Proofs.ValueReading

/-!
# Values in order

What is read from a text is ordered, however the text orders the fields of its objects: they are
put in the order of their keys, and of two with one key one is kept.

* `Reader.forall_of_items?`, `Reader.forall_of_fields?`: what the readers of lists say of each
  member.
* `ordered_of_read?`: values that are read are ordered.
-/

namespace DocSearch.Json

namespace Fields

theorem mem_of_mem_ofList {assignments : List (String × Json)} {field : String × Json}
    (h : field ∈ ofList assignments) : field ∈ assignments := by
  induction assignments using List.reverseRecOn with
  | nil => cases h
  | append_singleton assignments a ih =>
    rw [ofList_concat] at h
    rw [List.mem_append]
    rcases mem_insert h with rfl | h
    · exact Or.inr List.mem_cons_self
    · exact Or.inl (ih h)

theorem ordered_ofList {assignments : List (String × Json)}
    (h : ∀ a ∈ assignments, a.2.Ordered) : (Json.object (ofList assignments)).Ordered :=
  .object (ascending_ofList _) fun _ hfield => h _ (mem_of_mem_ofList hfield)

end Fields

namespace Reader

variable {α : Type} {P : α → Prop} {care : Care} {fuel depth : Nat} {cs left : List Char}

theorem forall_of_items? {item? : List Char → Option (α × List Char)} {items : List α}
    (hitem : ∀ cs a left, item? cs = some (a, left) → P a)
    (h : items? item? fuel cs = some (items, left)) : ∀ a ∈ items, P a := by
  induction fuel generalizing cs items left with
  | zero => cases h
  | succ fuel ih =>
    obtain ⟨⟨first, ahead⟩, hfirst, h⟩ := Option.bind_eq_some_iff.mp h
    have hP := hitem _ _ _ hfirst
    dsimp only at h
    split at h
    · obtain ⟨⟨others, after⟩, hothers, h⟩ := Option.bind_eq_some_iff.mp h
      cases h
      exact List.forall_mem_cons.mpr ⟨hP, ih hothers⟩
    · cases h
      exact List.forall_mem_singleton.mpr hP
    · cases h

theorem forall_of_array? {item? : List Char → Option (α × List Char)} {items : List α}
    (hitem : ∀ cs a left, item? cs = some (a, left) → P a)
    (h : array? item? fuel cs = some (items, left)) : ∀ a ∈ items, P a := by
  unfold array? at h
  split at h
  · cases h
    exact List.forall_mem_nil _
  · exact forall_of_items? hitem h

theorem of_field? {member? : String → List Char → Option (α × List Char)} {field : String × α}
    (hmember : ∀ key cs a left, member? key cs = some (a, left) → P a)
    (h : field? care member? cs = some (field, left)) : P field.2 := by
  unfold field? at h
  split at h
  · obtain ⟨⟨key, ahead⟩, -, h⟩ := Option.bind_eq_some_iff.mp h
    dsimp only at h
    split at h
    · obtain ⟨⟨value, after⟩, hvalue, h⟩ := Option.bind_eq_some_iff.mp h
      cases h
      exact hmember _ _ _ _ hvalue
    · cases h
  · cases h

theorem forall_of_fields? {member? : String → List Char → Option (α × List Char)}
    {fields : List (String × α)}
    (hmember : ∀ key cs a left, member? key cs = some (a, left) → P a)
    (h : fields? care member? fuel cs = some (fields, left)) : ∀ f ∈ fields, P f.2 := by
  induction fuel generalizing cs fields left with
  | zero => cases h
  | succ fuel ih =>
    obtain ⟨⟨first, ahead⟩, hfirst, h⟩ := Option.bind_eq_some_iff.mp h
    have hP := of_field? hmember hfirst
    dsimp only at h
    split at h
    · obtain ⟨⟨others, after⟩, hothers, h⟩ := Option.bind_eq_some_iff.mp h
      cases h
      exact List.forall_mem_cons.mpr ⟨hP, ih hothers⟩
    · cases h
      exact List.forall_mem_singleton.mpr hP
    · cases h

theorem forall_of_object? {member? : String → List Char → Option (α × List Char)}
    {fields : List (String × α)}
    (hmember : ∀ key cs a left, member? key cs = some (a, left) → P a)
    (h : object? care member? fuel cs = some (fields, left)) : ∀ f ∈ fields, P f.2 := by
  unfold object? at h
  split at h
  · cases h
    exact List.forall_mem_nil _
  · exact forall_of_fields? hmember h

theorem ordered_of_value? {j : Json} (h : value? care fuel depth cs = some (j, left)) :
    j.Ordered := by
  induction depth using Nat.strongRecOn generalizing cs j left with
  | ind depth ih =>
    unfold value? at h
    split at h
    case h_5 inner rest =>
      obtain ⟨⟨items, after⟩, hitems, hread⟩ := Option.map_eq_some_iff.mp h
      cases hread
      exact .array (forall_of_array? (fun _ _ _ => ih inner (Nat.lt_succ_self inner)) hitems)
    case h_6 inner rest =>
      obtain ⟨⟨fields, after⟩, hfields, hread⟩ := Option.map_eq_some_iff.mp h
      cases hread
      exact Fields.ordered_ofList
        (forall_of_object? (fun _ _ _ _ => ih inner (Nat.lt_succ_self inner)) hfields)
    all_goals
      obtain ⟨read, -, hread⟩ := Option.map_eq_some_iff.mp h
      cases hread
      simp

end Reader

@[simp] theorem ordered_single_iff {key : String} {value : Json} :
    (single key value).Ordered ↔ value.Ordered := by
  simp [single, Fields.Ascending]

theorem Ordered.get? {fields : Fields} {key : String} {value : Json}
    (h : (Json.object fields).Ordered) (hget : fields.get? key = some value) : value.Ordered :=
  (ordered_object_iff.mp h).2 _ (Fields.mem_of_get? hget)

theorem ordered_of_read? {s : String} {j : Json} (h : read? s = some j) : j.Ordered := by
  obtain ⟨⟨value, left⟩, hvalue, hend⟩ := Option.bind_eq_some_iff.mp h
  obtain ⟨-, heq⟩ := Option.ite_none_right_eq_some.mp hend
  cases heq
  exact Reader.ordered_of_value? hvalue

end DocSearch.Json
