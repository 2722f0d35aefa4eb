import DocSearch.Compile.Groups
import Mathlib.Data.List.Basic

/-!
# Priority groups

A list splits into its priority groups without losing a member, without an empty group and
without looking at more of a member than what opens a group.

* `flatten_priorityGroups`, `ne_nil_of_mem_priorityGroups`: the groups in their order are the
  list, and none of them is empty.
* `priorityGroups_map`: the groups of an image are the images of the groups.
* `priorityGroups_eq_iff`: no other split of the list has its groups open where a member opens
  one and nowhere else.
* `exists_priorityGroups_cons`: the first member does not matter for where the groups open.
-/

namespace DocSearch.Compile

variable {α β : Type} {opens : α → Bool}

/-- What a member in front adds to the groups of a list: a group of its own before a member
that opens one, and else a member of the first group. -/
theorem priorityGroups_cons_cons (opens : α → Bool) (a b : α) (rest : List α) :
    ∃ group groups, priorityGroups opens (b :: rest) = group :: groups ∧
      priorityGroups opens (a :: b :: rest) =
        if opens b then [a] :: group :: groups else (a :: group) :: groups := by
  cases hg : priorityGroups opens (b :: rest) with
  | nil =>
    exfalso
    unfold priorityGroups at hg
    split at hg
    · split at hg <;> cases hg
    · cases hg
  | cons group groups =>
    exact ⟨group, groups, rfl, by rw [priorityGroups]; exact hg⟩

theorem flatten_priorityGroups (opens : α → Bool) (l : List α) :
    (priorityGroups opens l).flatten = l := by
  induction l with
  | nil => rfl
  | cons a rest ih =>
    cases rest with
    | nil => rfl
    | cons b rest =>
      obtain ⟨group, groups, hrest, hall⟩ := priorityGroups_cons_cons opens a b rest
      rw [hrest] at ih
      rw [hall, ← ih]
      split <;> rfl

theorem ne_nil_of_mem_priorityGroups {l group : List α} (h : group ∈ priorityGroups opens l) :
    group ≠ [] := by
  induction l generalizing group with
  | nil => cases h
  | cons a rest ih =>
    cases rest with
    | nil =>
      rw [List.mem_singleton.mp h]
      exact List.cons_ne_nil _ _
    | cons b rest =>
      obtain ⟨first, groups, hrest, hall⟩ := priorityGroups_cons_cons opens a b rest
      rw [hrest] at ih
      rw [hall] at h
      split at h
      · rcases List.mem_cons.mp h with rfl | h
        · exact List.cons_ne_nil _ _
        · exact ih h
      · rcases List.mem_cons.mp h with rfl | h
        · exact List.cons_ne_nil _ _
        · exact ih (List.mem_cons_of_mem _ h)

theorem mem_of_mem_priorityGroups {l group : List α} {a : α} (h : group ∈ priorityGroups opens l)
    (ha : a ∈ group) : a ∈ l := by
  rw [← flatten_priorityGroups opens l]
  exact List.mem_flatten.mpr ⟨group, h, ha⟩

theorem sublist_of_mem_priorityGroups {l group : List α} (h : group ∈ priorityGroups opens l) :
    group.Sublist l := by
  conv => rhs; rw [← flatten_priorityGroups opens l]
  exact List.sublist_flatten_of_mem h

@[simp]
theorem priorityGroups_eq_nil {l : List α} : priorityGroups opens l = [] ↔ l = [] := by
  constructor
  · intro h
    rw [← flatten_priorityGroups opens l, h]
    rfl
  · rintro rfl
    rfl

/-- A list of one group is that group. -/
theorem eq_of_priorityGroups_eq_singleton {l group : List α}
    (h : priorityGroups opens l = [group]) : group = l := by
  have hflat := flatten_priorityGroups opens l
  rw [h] at hflat
  simpa using hflat

theorem priorityGroups_map (f : β → α) (l : List β) :
    priorityGroups opens (l.map f) =
      (priorityGroups (fun b => opens (f b)) l).map (List.map f) := by
  induction l with
  | nil => rfl
  | cons a rest ih =>
    cases rest with
    | nil => rfl
    | cons b rest =>
      obtain ⟨group, groups, hrest, hall⟩ :=
        priorityGroups_cons_cons (fun b => opens (f b)) a b rest
      obtain ⟨group', groups', hrest', hall'⟩ :=
        priorityGroups_cons_cons opens (f a) (f b) (rest.map f)
      rw [List.map_cons, hrest', hrest, List.map_cons] at ih
      obtain ⟨rfl, rfl⟩ := List.cons.inj ih
      rw [List.map_cons, List.map_cons, hall', hall]
      split <;> rfl

/-! ## The only split -/

/-- A split of a list into groups, of which each but the first begins with a member that opens one,
and no other member does. -/
structure IsPrioritySplit (opens : α → Bool) (l : List α) (groups : List (List α)) : Prop where
  flatten : groups.flatten = l
  nonempty : ∀ group ∈ groups, group ≠ []
  opened : ∀ group ∈ groups.tail, ∃ a rest, group = a :: rest ∧ opens a = true
  joined : ∀ group ∈ groups, ∀ a ∈ group.tail, opens a = false

theorem priorityGroups_cons_of_opens {a b : α} {rest : List α} (hb : opens b = true) :
    priorityGroups opens (a :: b :: rest) = [a] :: priorityGroups opens (b :: rest) := by
  obtain ⟨group, groups, hrest, hall⟩ := priorityGroups_cons_cons opens a b rest
  rw [hall, hrest, if_pos hb]

theorem priorityGroups_cons_of_joined {a b : α} {rest group : List α} {groups : List (List α)}
    (hb : opens b = false) (hrest : priorityGroups opens (b :: rest) = group :: groups) :
    priorityGroups opens (a :: b :: rest) = (a :: group) :: groups := by
  obtain ⟨group', groups', hrest', hall⟩ := priorityGroups_cons_cons opens a b rest
  obtain ⟨rfl, rfl⟩ := List.cons.inj (hrest.symm.trans hrest')
  rw [hall, if_neg (by simp [hb])]

/-- The first member is the first of the first group, and the groups are the same for any other
member in its place. -/
theorem exists_priorityGroups_cons (opens : α → Bool) (rest : List α) :
    ∃ group groups, ∀ a, priorityGroups opens (a :: rest) = (a :: group) :: groups := by
  cases rest with
  | nil => exact ⟨[], [], fun a => rfl⟩
  | cons b rest =>
    cases hb : opens b with
    | true => exact ⟨[], _, fun a => priorityGroups_cons_of_opens hb⟩
    | false =>
      obtain ⟨group, groups, hrest, -⟩ := priorityGroups_cons_cons opens b b rest
      exact ⟨group, groups, fun a => priorityGroups_cons_of_joined hb hrest⟩

/-- A group opens at its first member and nowhere else; the first group opens at any member. -/
theorem opened_priorityGroups (opens : α → Bool) (l : List α) :
    (∀ group ∈ (priorityGroups opens l).tail, ∃ a rest, group = a :: rest ∧ opens a = true) ∧
      ∀ group ∈ priorityGroups opens l, ∀ a ∈ group.tail, opens a = false := by
  induction l with
  | nil => simp [priorityGroups]
  | cons a rest ih =>
    cases rest with
    | nil => simp [priorityGroups]
    | cons b rest =>
      obtain ⟨group, groups, hfirst⟩ := exists_priorityGroups_cons opens rest
      rw [hfirst b] at ih
      obtain ⟨hopened, hjoined⟩ := ih
      cases hb : opens b with
      | true =>
        rw [priorityGroups_cons_of_opens hb, hfirst b]
        exact ⟨List.forall_mem_cons.mpr ⟨⟨b, group, rfl, hb⟩, hopened⟩,
          List.forall_mem_cons.mpr ⟨by simp, hjoined⟩⟩
      | false =>
        rw [priorityGroups_cons_of_joined hb (hfirst b)]
        obtain ⟨hgroup, hgroups⟩ := List.forall_mem_cons.mp hjoined
        exact ⟨hopened,
          List.forall_mem_cons.mpr ⟨List.forall_mem_cons.mpr ⟨hb, hgroup⟩, hgroups⟩⟩

theorem isPrioritySplit_priorityGroups (opens : α → Bool) (l : List α) :
    IsPrioritySplit opens l (priorityGroups opens l) where
  flatten := flatten_priorityGroups opens l
  nonempty := fun _ hg => ne_nil_of_mem_priorityGroups hg
  opened := (opened_priorityGroups opens l).1
  joined := (opened_priorityGroups opens l).2

/-- A run of members that open nothing, in front of a list whose first member opens a group, is the
first group. -/
theorem priorityGroups_append {a : α} {run rest : List α} (hrun : ∀ b ∈ run, opens b = false)
    (hrest : ∀ b ∈ rest.head?, opens b = true) :
    priorityGroups opens (a :: run ++ rest) = (a :: run) :: priorityGroups opens rest := by
  induction run generalizing a with
  | nil =>
    cases rest with
    | nil => rfl
    | cons b rest => exact priorityGroups_cons_of_opens (hrest b rfl)
  | cons b run ih =>
    obtain ⟨hb, hrun⟩ := List.forall_mem_cons.mp hrun
    exact priorityGroups_cons_of_joined hb (ih hrun)

theorem IsPrioritySplit.eq_priorityGroups {l : List α} {groups : List (List α)}
    (h : IsPrioritySplit opens l groups) : groups = priorityGroups opens l := by
  obtain ⟨rfl, hnonempty, hopened, hjoined⟩ := h
  induction groups with
  | nil => rfl
  | cons group groups ih =>
    obtain ⟨hgroup, hnonempty⟩ := List.forall_mem_cons.mp hnonempty
    obtain ⟨hrun, hjoined⟩ := List.forall_mem_cons.mp hjoined
    have hrest : ∀ b ∈ groups.flatten.head?, opens b = true := by
      cases groups with
      | nil => simp
      | cons next groups =>
        obtain ⟨b, rest, rfl, hb⟩ := hopened next List.mem_cons_self
        simpa using hb
    have hgroups := ih hnonempty (fun group hg => hopened group (List.mem_of_mem_tail hg)) hjoined
    obtain ⟨a, run, rfl⟩ := List.exists_cons_of_ne_nil hgroup
    have hfirst : priorityGroups opens (a :: run ++ groups.flatten) =
        (a :: run) :: priorityGroups opens groups.flatten := priorityGroups_append hrun hrest
    rw [List.flatten_cons, hfirst, ← hgroups]

theorem priorityGroups_eq_iff {l : List α} {groups : List (List α)} :
    priorityGroups opens l = groups ↔ IsPrioritySplit opens l groups := by
  constructor
  · rintro rfl
    exact isPrioritySplit_priorityGroups opens l
  · exact fun h => h.eq_priorityGroups.symm

/-- One group more than members after the first that open one. -/
theorem length_priorityGroups_cons (a : α) (rest : List α) :
    (priorityGroups opens (a :: rest)).length = rest.countP opens + 1 := by
  induction rest generalizing a with
  | nil => rfl
  | cons b rest ih =>
    cases hb : opens b with
    | true => rw [priorityGroups_cons_of_opens hb, List.length_cons, ih, List.countP_cons_of_pos hb]
    | false =>
      obtain ⟨group, groups, hfirst⟩ := exists_priorityGroups_cons opens rest
      have hlength := ih b
      rw [hfirst b] at hlength
      rw [priorityGroups_cons_of_joined hb (hfirst b), List.countP_cons_of_neg (by simp [hb])]
      exact hlength

end DocSearch.Compile
