import Mathlib.Data.List.Forall2
import Mathlib.Tactic.Common

/-!
# Computations that may fail

When two computations one after the other succeed, or one for each member of a list
(`mapM_eq_ok_iff`), with which error they fail (`errorOf?`), and when members that relate to
something make a list that does.
-/

namespace DocSearch

section Except

variable {ε α β : Type} {x : Except ε α} {b : β}

theorem bind_eq_ok_iff {f : α → Except ε β} : x >>= f = .ok b ↔ ∃ a, x = .ok a ∧ f a = .ok b := by
  cases x <;> simp [bind, Except.bind]

theorem map_eq_ok_iff {f : α → β} : x.map f = .ok b ↔ ∃ a, x = .ok a ∧ f a = b := by
  cases x <;> simp [Except.map]

theorem mapError_eq_ok_iff {ε' : Type} {f : ε → ε'} {a : α} :
    x.mapError f = .ok a ↔ x = .ok a := by
  cases x <;> simp [Except.mapError]

theorem mapError_eq_error_iff {ε' : Type} {f : ε → ε'} {e : ε'} :
    x.mapError f = .error e ↔ ∃ fault, x = .error fault ∧ e = f fault := by
  cases x <;> simp [Except.mapError, eq_comm]

/-- Computations for the members of a list succeed if each of them does. -/
theorem mapM_eq_ok_iff {f : α → Except ε β} {l : List α} {bs : List β} :
    l.mapM f = .ok bs ↔ List.Forall₂ (fun a b => f a = .ok b) l bs := by
  induction l generalizing bs with
  | nil => simp [pure, Except.pure, eq_comm]
  | cons a l ih =>
    simp only [List.mapM_cons, bind_eq_ok_iff, ih, List.forall₂_cons_left_iff]
    constructor
    · rintro ⟨b, hb, bs, hbs, hcons⟩
      cases hcons
      exact ⟨b, bs, hb, hbs, rfl⟩
    · rintro ⟨b, bs, hb, hbs, rfl⟩
      exact ⟨b, hb, bs, hbs, rfl⟩

/-- The error of a computation that fails. -/
def errorOf? : Except ε α → Option ε
  | .ok _ => none
  | .error e => some e

theorem errorOf?_eq_some_iff {e : ε} : errorOf? x = some e ↔ x = .error e := by
  cases x <;> simp [errorOf?]

theorem errorOf?_eq_none_iff : errorOf? x = none ↔ ∃ a, x = .ok a := by
  cases x <;> simp [errorOf?]

theorem errorOf?_map (f : α → β) : errorOf? (x.map f) = errorOf? x := by
  cases x <;> rfl

theorem errorOf?_bind_pure (f : α → β) : errorOf? (x >>= fun a => pure (f a)) = errorOf? x := by
  cases x <;> rfl

/-- Computations for the members of a list fail with the first error among theirs. -/
theorem errorOf?_mapM (f : α → Except ε β) (l : List α) :
    errorOf? (l.mapM f) = l.findSome? fun a => errorOf? (f a) := by
  induction l with
  | nil => rfl
  | cons a l ih =>
    rw [List.mapM_cons, List.findSome?_cons, ← ih]
    cases f a with
    | error e => rfl
    | ok b => exact errorOf?_bind_pure (b :: ·)

end Except

section Related

variable {α β : Type} {R : α → β → Prop} {l : List α} {a : α}

theorem exists_forall₂ (h : ∀ a ∈ l, ∃ b, R a b) : ∃ bs, List.Forall₂ R l bs := by
  induction l with
  | nil => exact ⟨[], .nil⟩
  | cons a l ih =>
    obtain ⟨b, hb⟩ := h a List.mem_cons_self
    obtain ⟨bs, hbs⟩ := ih fun a ha => h a (List.mem_cons_of_mem _ ha)
    exact ⟨b :: bs, .cons hb hbs⟩

theorem exists_of_forall₂ {bs : List β} (h : List.Forall₂ R l bs) (ha : a ∈ l) : ∃ b, R a b := by
  induction h with
  | nil => cases ha
  | @cons a' b l bs hb _ ih =>
    rcases List.mem_cons.mp ha with rfl | ha
    · exact ⟨b, hb⟩
    · exact ih ha

theorem forall₂_congr_of_mem {S : α → β → Prop} {bs : List β} (h : ∀ a ∈ l, ∀ b, R a b ↔ S a b) :
    List.Forall₂ R l bs ↔ List.Forall₂ S l bs := by
  induction l generalizing bs with
  | nil => rw [List.forall₂_nil_left_iff, List.forall₂_nil_left_iff]
  | cons a l ih =>
    have hrest : ∀ bs, List.Forall₂ R l bs ↔ List.Forall₂ S l bs := by
      intro bs
      exact ih fun a ha => h a (List.mem_cons_of_mem _ ha)
    simp only [List.forall₂_cons_left_iff, h a List.mem_cons_self, hrest]

/-- Members that relate to what a function makes of them make a list that is its image. -/
theorem forall₂_iff_map_eq {f : α → β} (h : ∀ a b, R a b ↔ f a = b) {bs : List β} :
    List.Forall₂ R l bs ↔ l.map f = bs := by
  rw [forall₂_congr_of_mem fun a _ b => h a b, ← List.forall₂_map_left_iff, List.forall₂_eq_eq_eq]

end Related

end DocSearch
