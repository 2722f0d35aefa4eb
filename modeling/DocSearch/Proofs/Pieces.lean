import DocSearch.Text.Pieces
import Mathlib.Tactic.Common

/-!
# Cutting texts

What `Text.cut` makes of a text that is put together from pieces, and where the first separator
stands in a text.

* `Text.cut_append_of_not_mem`: a text without separators in front lengthens the first piece.
* `Text.pieces_join`: a text of lines is cut into them.
* `Text.pieces_eq_iff`: the pieces are the only texts without separators that they join.
* `Text.pieces_intercalate`: texts that are joined by separators have the pieces of each of them.
* `Text.splitFirst_eq_some_iff`: the texts before and behind the first separator.
-/

namespace DocSearch.Text

variable {separator : Char} {cs front back : List Char}

theorem cut_cons (separator c : Char) (cs : List Char) :
    cut separator (c :: cs) =
      if c = separator then ([], (cut separator cs).1 :: (cut separator cs).2)
      else (c :: (cut separator cs).1, (cut separator cs).2) := rfl

theorem cut_append_of_not_mem (h : separator ∉ front) (back : List Char) :
    cut separator (front ++ back) =
      (front ++ (cut separator back).1, (cut separator back).2) := by
  induction front with
  | nil => rfl
  | cons c front ih =>
    obtain ⟨hc, hfront⟩ := List.ne_and_not_mem_of_not_mem_cons h
    rw [List.cons_append, cut_cons, if_neg hc.symm, ih hfront]
    rfl

theorem cut_of_not_mem (h : separator ∉ cs) : cut separator cs = (cs, []) := by
  have hcut := cut_append_of_not_mem h []
  rw [List.append_nil] at hcut
  exact hcut.trans (by simp [cut])

theorem cut_append {piece : List Char} (rest : List Char) (h : separator ∉ piece) :
    cut separator (piece ++ separator :: rest) =
      (piece, (cut separator rest).1 :: (cut separator rest).2) := by
  rw [cut_append_of_not_mem h, cut_cons, if_pos rfl, List.append_nil]

/-- A text of lines is cut into them; nothing stands behind the last. -/
theorem pieces_join {bodies : List String} (h : ∀ body ∈ bodies, separator ∉ body.toList) :
    pieces separator (String.join (bodies.map fun body => body.push separator)) =
      bodies ++ [""] := by
  induction bodies with
  | nil => rfl
  | cons body bodies ih =>
    obtain ⟨hbody, hbodies⟩ := List.forall_mem_cons.mp h
    have htext : (String.join ((body :: bodies).map fun body => body.push separator)).toList =
        body.toList ++ separator ::
          (String.join (bodies.map fun body => body.push separator)).toList := by
      simp
    have hmore := ih hbodies
    rw [pieces] at hmore ⊢
    rw [htext, cut_append _ hbody]
    simpa using hmore

/-! ## All pieces -/

section Pieces

variable {s : String} {texts ps : List String} {c : Char}

theorem cut_eq_splitOn (separator : Char) (cs : List Char) :
    (cut separator cs).1 :: (cut separator cs).2 = cs.splitOn separator := by
  induction cs with
  | nil => rfl
  | cons c cs ih =>
    rw [cut_cons, List.splitOn_cons_eq_if_modifyHead, ← ih]
    by_cases hc : c = separator
    · simp [hc]
    · simp [hc]

theorem pieces_eq_splitOn (separator : Char) (s : String) :
    pieces separator s = (s.toList.splitOn separator).map String.ofList := by
  rw [← cut_eq_splitOn]
  rfl

theorem pieces_ne_nil : pieces separator s ≠ [] := List.cons_ne_nil _ _

theorem pieces_of_not_mem (h : separator ∉ s.toList) : pieces separator s = [s] := by
  rw [pieces_eq_splitOn, List.splitOn_eq_singleton h, List.map_singleton, String.ofList_toList]

theorem pieces_append (separator : Char) (a b : String) :
    pieces separator (a ++ String.singleton separator ++ b) =
      pieces separator a ++ pieces separator b := by
  have hlist : (a ++ String.singleton separator ++ b).toList = a.toList ++ separator :: b.toList := by
    simp
  rw [pieces_eq_splitOn, hlist, List.splitOn_append_cons_self, List.map_append, pieces_eq_splitOn,
    pieces_eq_splitOn]

theorem pieces_intercalate (separator : Char) (first : String) (texts : List String) :
    pieces separator ((String.singleton separator).intercalate (first :: texts)) =
      (first :: texts).flatMap (pieces separator) := by
  induction texts generalizing first with
  | nil => simp
  | cons text texts ih =>
    rw [String.intercalate_cons_cons, pieces_append, ih, ← List.flatMap_cons]

theorem intercalate_pieces (separator : Char) (s : String) :
    (String.singleton separator).intercalate (pieces separator s) = s := by
  have hlists : (pieces separator s).map String.toList = s.toList.splitOn separator := by
    rw [pieces_eq_splitOn, List.map_map]
    simp [Function.comp_def]
  rw [← String.toList_inj, String.toList_intercalate, hlists, String.toList_singleton,
    List.intercalate_splitOn]

theorem not_mem_of_mem_cut {piece : List Char}
    (h : piece ∈ (cut separator cs).1 :: (cut separator cs).2) : separator ∉ piece := by
  induction cs generalizing piece with
  | nil =>
    rw [List.mem_singleton.mp h]
    exact List.not_mem_nil
  | cons c cs ih =>
    have hpieces : ∀ p ∈ (cut separator cs).1 :: (cut separator cs).2, separator ∉ p := fun _ => ih
    obtain ⟨hfirst, hothers⟩ := List.forall_mem_cons.mp hpieces
    rw [cut_cons] at h
    split at h
    case isTrue =>
      rcases List.mem_cons.mp h with rfl | h
      · exact List.not_mem_nil
      · exact ih h
    case isFalse hc =>
      rcases List.mem_cons.mp h with rfl | h
      · exact List.not_mem_cons_of_ne_of_not_mem (Ne.symm hc) hfirst
      · exact hothers piece h

theorem not_mem_of_mem_pieces {piece : String} (h : piece ∈ pieces separator s) :
    separator ∉ piece.toList := by
  obtain ⟨cs, hcs, rfl⟩ := List.mem_map.mp h
  rw [String.toList_ofList]
  exact not_mem_of_mem_cut hcs

theorem pieces_eq_iff :
    pieces separator s = ps ↔
      ps ≠ [] ∧ (∀ piece ∈ ps, separator ∉ piece.toList) ∧
        (String.singleton separator).intercalate ps = s := by
  constructor
  · rintro rfl
    exact ⟨pieces_ne_nil, fun piece => not_mem_of_mem_pieces, intercalate_pieces separator s⟩
  · rintro ⟨hne, hnot, rfl⟩
    have hlists : ∀ piece ∈ ps.map String.toList, separator ∉ piece := by simpa using hnot
    rw [pieces_eq_splitOn, String.toList_intercalate, String.toList_singleton,
      List.splitOn_intercalate separator hlists (by simpa using hne), List.map_map]
    simp [Function.comp_def]

theorem not_mem_intercalate (hc : c ≠ separator) (h : ∀ text ∈ texts, c ∉ text.toList) :
    c ∉ ((String.singleton separator).intercalate texts).toList := by
  induction texts with
  | nil => simp
  | cons text texts ih =>
    obtain ⟨htext, htexts⟩ := List.forall_mem_cons.mp h
    cases texts with
    | nil => simpa using htext
    | cons next texts =>
      rw [String.intercalate_cons_cons]
      simp only [String.toList_append, String.toList_singleton, List.mem_append,
        List.mem_singleton, not_or]
      exact ⟨⟨htext, hc⟩, ih htexts⟩

end Pieces

/-! ## The first separator -/

/-- The text before the first separator and the one behind it, if there is a separator. -/
def splitFirst (separator : Char) : List Char → Option (List Char × List Char)
  | [] => none
  | c :: rest =>
    if c = separator then some ([], rest)
    else (splitFirst separator rest).map fun (front, back) => (c :: front, back)

theorem splitFirst_eq_none_iff : splitFirst separator cs = none ↔ separator ∉ cs := by
  induction cs with
  | nil => simp [splitFirst]
  | cons c cs ih =>
    rw [splitFirst]
    by_cases h : c = separator
    · simp [h]
    · simp [h, ih, Ne.symm h]

theorem splitFirst_append (hfront : separator ∉ front) (back : List Char) :
    splitFirst separator (front ++ separator :: back) = some (front, back) := by
  induction front with
  | nil => simp [splitFirst]
  | cons c front ih =>
    obtain ⟨hc, hfront⟩ := List.ne_and_not_mem_of_not_mem_cons hfront
    rw [List.cons_append, splitFirst, if_neg hc.symm, ih hfront]
    rfl

theorem splitFirst_eq_some_iff :
    splitFirst separator cs = some (front, back) ↔
      separator ∉ front ∧ cs = front ++ separator :: back := by
  constructor
  · intro h
    induction cs generalizing front with
    | nil => cases h
    | cons c cs ih =>
      rw [splitFirst] at h
      by_cases hc : c = separator
      · rw [if_pos hc] at h
        cases h
        exact ⟨List.not_mem_nil, hc ▸ rfl⟩
      · rw [if_neg hc] at h
        obtain ⟨⟨rest, last⟩, hrest, heq⟩ := Option.map_eq_some_iff.mp h
        cases heq
        obtain ⟨hnot, rfl⟩ := ih hrest
        exact ⟨List.not_mem_cons_of_ne_of_not_mem (Ne.symm hc) hnot, rfl⟩
  · rintro ⟨hfront, rfl⟩
    exact splitFirst_append hfront back

end DocSearch.Text
