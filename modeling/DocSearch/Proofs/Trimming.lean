import DocSearch.Proofs.Pieces
import DocSearch.Proofs.Results
import Mathlib.Data.List.DropRight

/-!
# Trimmed pieces

A text is trimmed to what is left of it without the blanks at its ends, and a text that lists several
others is read as its pieces, trimmed, without those of which nothing is left.

* `Text.trim_eq_iff`: the trimmed text is the only part with no blank at its ends that has only
  blanks around it.
* `Text.trimmedPieces_eq_iff`: what a text lists.
* `Text.trimmedPieces_intercalate`: texts that are joined by separators list what each of them lists.
* `Text.trimmedPieces_of_whole`: a text that lists itself.
* `Text.trimmedPieces_intercalate_of_whole`: such texts are read back when they are joined.
-/

namespace DocSearch.Text

variable {separator : Char} {cs ts : List Char} {s t : String} {texts ps : List String}

/-! ## Trimming -/

/-- No blank stands at either end. -/
def Unpadded (cs : List Char) : Prop :=
  ∀ c, cs.head? = some c ∨ cs.getLast? = some c → isBlank c = false

/-- `Trims cs ts`: only blanks stand around `ts` in `cs`, and none at its ends. -/
def Trims (cs ts : List Char) : Prop :=
  Unpadded ts ∧ ∃ front back, cs = front ++ ts ++ back ∧ ∀ c ∈ front ++ back, isBlank c = true

theorem trimChars_eq (cs : List Char) :
    trimChars cs = (cs.dropWhile isBlank).rdropWhile isBlank := rfl

theorem not_isBlank_of_head? {c : Char} (h : (cs.dropWhile isBlank).head? = some c) :
    isBlank c = false := by
  have hnot := List.head?_dropWhile_not isBlank cs
  rw [h] at hnot
  exact hnot

theorem dropWhile_of_head? (h : ∀ c, cs.head? = some c → isBlank c = false) :
    cs.dropWhile isBlank = cs := by
  cases cs with
  | nil => rfl
  | cons c cs => exact List.dropWhile_cons_of_neg (by simp [h c rfl])

theorem trims_trimChars (cs : List Char) : Trims cs (trimChars cs) := by
  rw [trimChars_eq]
  generalize hinner : cs.dropWhile isBlank = inner
  have hsplit : inner = inner.rdropWhile isBlank ++ inner.rtakeWhile isBlank :=
    List.rdropWhile_append_rtakeWhile.symm
  refine ⟨?_, cs.takeWhile isBlank, inner.rtakeWhile isBlank, ?_, ?_⟩
  · rintro c (hhead | hlast)
    · -- what is dropped behind leaves the first character where it is
      have hfirst : (cs.dropWhile isBlank).head? = some c := by
        rw [hinner, hsplit, List.head?_append, hhead, Option.some_or]
      exact not_isBlank_of_head? hfirst
    · rw [List.rdropWhile, List.getLast?_reverse] at hlast
      exact not_isBlank_of_head? hlast
  · rw [List.append_assoc, ← hsplit, ← hinner, List.takeWhile_append_dropWhile]
  · intro c hc
    rcases List.mem_append.mp hc with hfront | hback
    · exact List.mem_takeWhile_imp hfront
    · exact List.mem_rtakeWhile_imp hback

theorem trimChars_of_trims (h : Trims cs ts) : trimChars cs = ts := by
  obtain ⟨hends, front, back, rfl, hblank⟩ := h
  obtain ⟨hfront, hback⟩ := List.forall_mem_append.mp hblank
  rw [trimChars_eq, List.append_assoc, List.dropWhile_append_of_pos hfront]
  cases ts with
  | nil =>
    rw [List.nil_append, List.dropWhile_eq_nil_iff.mpr hback]
    rfl
  | cons c ts =>
    have hkept : (c :: ts ++ back).dropWhile isBlank = c :: ts ++ back :=
      dropWhile_of_head? fun d hd => hends d (Or.inl hd)
    have hlast : (c :: ts).reverse.dropWhile isBlank = (c :: ts).reverse :=
      dropWhile_of_head? fun d hd => hends d (Or.inr (by rwa [List.head?_reverse] at hd))
    rw [hkept, List.rdropWhile, List.reverse_append,
      List.dropWhile_append_of_pos fun d hd => hback d (List.mem_reverse.mp hd), hlast,
      List.reverse_reverse]

/-- Trimming takes the blanks away and nothing else. -/
theorem trim_eq_iff : trim s = t ↔ Trims s.toList t.toList := by
  rw [trim, ← String.toList_inj, String.toList_ofList]
  constructor
  · intro h
    rw [← h]
    exact trims_trimChars s.toList
  · exact trimChars_of_trims

theorem trim_of_unpadded (h : Unpadded s.toList) : trim s = s :=
  trim_eq_iff.mpr ⟨h, [], [], by simp, by simp⟩

/-! ## Lists -/

/-- `Lists separator s texts`: the pieces of a text, trimmed, are `texts` and others that are empty. -/
def Lists (separator : Char) (s : String) (texts : List String) : Prop :=
  ∃ cut trimmed : List String, cut ≠ [] ∧ (∀ piece ∈ cut, separator ∉ piece.toList) ∧
    (String.singleton separator).intercalate cut = s ∧
    List.Forall₂ (fun piece t => Trims piece.toList t.toList) cut trimmed ∧
    trimmed.filter (· ≠ "") = texts

theorem trimmedPieces_eq_iff : trimmedPieces separator s = texts ↔ Lists separator s texts := by
  have hpiece : ∀ piece t : String, Trims piece.toList t.toList ↔ trim piece = t :=
    fun piece t => trim_eq_iff.symm
  have htrims : ∀ cut trimmed : List String,
      List.Forall₂ (fun piece t => Trims piece.toList t.toList) cut trimmed ↔
        cut.map trim = trimmed := by
    intro cut trimmed
    exact forall₂_iff_map_eq hpiece
  constructor
  · rintro rfl
    obtain ⟨hne, hnot, hjoin⟩ := pieces_eq_iff.mp (Eq.refl (pieces separator s))
    exact ⟨_, _, hne, hnot, hjoin, (htrims _ _).mpr rfl, rfl⟩
  · rintro ⟨cut, trimmed, hne, hnot, hjoin, hall, rfl⟩
    rw [trimmedPieces, pieces_eq_iff.mpr ⟨hne, hnot, hjoin⟩, (htrims cut trimmed).mp hall]

/-- Texts that are joined by separators list one after the other what each of them lists. -/
theorem trimmedPieces_intercalate (separator : Char) (texts : List String) :
    trimmedPieces separator ((String.singleton separator).intercalate texts) =
      texts.flatMap (trimmedPieces separator) := by
  cases texts with
  | nil => rfl
  | cons text texts =>
    rw [trimmedPieces, pieces_intercalate, List.map_flatMap, List.filter_flatMap]
    rfl

/-- A text without separators and blanks at its ends lists itself. -/
theorem trimmedPieces_of_whole (hne : s ≠ "") (hnot : separator ∉ s.toList)
    (hends : Unpadded s.toList) : trimmedPieces separator s = [s] := by
  rw [trimmedPieces, pieces_of_not_mem hnot, List.map_singleton, trim_of_unpadded hends]
  simp [hne]

/-- Texts without separators and blanks at their ends are read back when separators join them. -/
theorem trimmedPieces_intercalate_of_whole
    (h : ∀ text ∈ texts, text ≠ "" ∧ separator ∉ text.toList ∧ Unpadded text.toList) :
    trimmedPieces separator ((String.singleton separator).intercalate texts) = texts := by
  have hself : ∀ text ∈ texts, trimmedPieces separator text = [text] := fun text htext =>
    trimmedPieces_of_whole (h text htext).1 (h text htext).2.1 (h text htext).2.2
  rw [trimmedPieces_intercalate, List.flatMap_congr hself, List.flatMap_singleton']

end DocSearch.Text
