import DocSearch.Compile.BoolQuery
import DocSearch.Proofs.InnerPaths
import DocSearch.Proofs.Trimming
import DocSearch.Query.Filters

/-!
# Tests across several fields

A test across several fields joins their names to one column, and its clause lists the fields of the
column. A name that is itself a list of fields stands for all of them; any other name comes back as it
was given, so that the clause has the list that the caller gave.

* `acrossFields_lists`: the fields of the clause, for any names.
-/

namespace DocSearch

open Compile

/-- The clause of a phrase in one of several fields. -/
def acrossClause (fields : List String) (query : Json) : Json :=
  .single "multi_match" (.object
    [("fields", .texts fields), ("query", query), ("type", .text "phrase")])

theorem member_acrossFields (joined : Conjunction) (query : Json) {names : List String}
    (h : ∀ name ∈ names, pathMark ∉ name.toList) :
    member (.acrossFields joined names query) =
      .ok ⟨joined = .or, false,
        acrossClause (names.flatMap (Text.trimmedPieces fieldMark)) query⟩ := by
  have hcomma : "," = String.singleton fieldMark := by decide
  have hcolumn : pathMark ∉ (String.intercalate "," names).toList := by
    rw [hcomma]
    exact Text.not_mem_intercalate (by decide) h
  have hfields : Text.trimmedPieces fieldMark (String.intercalate "," names) =
      names.flatMap (Text.trimmedPieces fieldMark) := by
    rw [hcomma]
    exact Text.trimmedPieces_intercalate fieldMark names
  rw [Predicate.acrossFields, member, clause_of_no_mark hcolumn, plainClause, hfields]
  rfl

/-- **The fields of a test across several.** For names without path marks, the clause of the test
has the fields that each of the names lists, one name after the other: its pieces between commas,
trimmed, but for the empty ones. If no name is empty or has a comma or a blank at its ends, these are
the names as they were given, also if there is none, and with repetitions. -/
theorem acrossFields_lists (joined : Conjunction) (query : Json) {names : List String}
    (hnames : ∀ name ∈ names, '@' ∉ name.toList) :
    ∃ lists : List (List String),
      (∀ others, List.Forall₂ (Text.Lists ',') names others ↔ others = lists) ∧
      member (.acrossFields joined names query) =
        .ok ⟨joined = .or, false, acrossClause lists.flatten query⟩ ∧
      ((∀ name ∈ names, name ≠ "" ∧ ',' ∉ name.toList ∧ Text.Unpadded name.toList) →
        lists.flatten = names) := by
  refine ⟨names.map (Text.trimmedPieces ','), fun others => ?_, ?_, fun hwhole => ?_⟩
  · have hlists : ∀ (name : String) (list : List String),
        Text.Lists ',' name list ↔ Text.trimmedPieces ',' name = list :=
      fun name list => Text.trimmedPieces_eq_iff.symm
    exact (forall₂_iff_map_eq hlists).trans eq_comm
  · exact member_acrossFields joined query hnames
  · have hself : ∀ name ∈ names, Text.trimmedPieces ',' name = [name] := fun name hname =>
      Text.trimmedPieces_of_whole (hwhole name hname).1 (hwhole name hname).2.1
        (hwhole name hname).2.2
    rw [← List.flatMap_def, List.flatMap_congr hself, List.flatMap_singleton']

/-- A name with blanks and empty pieces, a plain one that is repeated, and no name at all. -/
theorem acrossFields_lists_repeated :
    (∀ name ∈ [" title ,,body", "author", "author"], '@' ∉ name.toList) ∧
      (∃ lists : List (List String),
        List.Forall₂ (Text.Lists ',') [" title ,,body", "author", "author"] lists ∧
        member (.acrossFields .and [" title ,,body", "author", "author"] .null) =
          .ok ⟨false, false, acrossClause lists.flatten .null⟩) ∧
      (∀ name ∈ ["author", "author"],
        name ≠ "" ∧ ',' ∉ name.toList ∧ Text.Unpadded name.toList) ∧
      member (.acrossFields .and ["author", "author"] .null) =
        .ok ⟨false, false, acrossClause ["author", "author"] .null⟩ ∧
      member (.acrossFields .and [] .null) = .ok ⟨false, false, acrossClause [] .null⟩ := by
  have hnames : ∀ name ∈ [" title ,,body", "author", "author"], '@' ∉ name.toList := by decide
  have hplain : ∀ name ∈ ["author", "author"], '@' ∉ name.toList := by decide
  have hnone : ∀ name ∈ ([] : List String), '@' ∉ name.toList := by decide
  have hauthor : Text.Unpadded "author".toList := by
    rintro c (hc | hc) <;> cases hc <;> decide
  have hwhole : ∀ name ∈ ["author", "author"],
      name ≠ "" ∧ ',' ∉ name.toList ∧ Text.Unpadded name.toList := by
    intro name hname
    obtain rfl : name = "author" := by simpa using hname
    exact ⟨by decide, by decide, hauthor⟩
  obtain ⟨lists, hlists, hclause, -⟩ := acrossFields_lists .and .null hnames
  obtain ⟨twice, -, hclause', hself⟩ := acrossFields_lists .and .null hplain
  obtain ⟨none, -, hclause'', hself'⟩ := acrossFields_lists .and .null hnone
  rw [hself hwhole] at hclause'
  rw [hself' (by simp)] at hclause''
  exact ⟨hnames, ⟨lists, (hlists lists).mpr rfl, hclause⟩, hwhole, hclause', hclause''⟩

end DocSearch
