import DocSearch.Compile.Clause
import DocSearch.Proofs.Pieces
import DocSearch.Proofs.Results

/-!
# Paths to inner objects

Marks in a column may be taken one by one: the first of them puts an envelope for the text before it
around the clause of the column that has a dot in its place. That column is as long, but it has one
mark less, so that this ends (`Compile.markedClause`), and it makes the clause of the column. What
comes of it is one envelope for each mark, around the clause of the column with dots for all marks.

* `Compile.clause_of_mark`, `Compile.clause_eq_markedClause`: the marks taken one by one.
* `Compile.clause_join`: all envelopes at once.
* `Compile.marks_expand`: both, for any column.
-/

namespace DocSearch.Compile

/-! ## One mark after the other -/

variable {leaf : LeafKind} {value : Json} {operator : Option Operator} {column : String}
  {parent inner : List Char}

/-- A dot in the place of the first mark leaves one mark less. -/
theorem count_lt_of_splitFirst {cs : List Char}
    (h : Text.splitFirst pathMark cs = some (parent, inner)) :
    (parent ++ '.' :: inner).count pathMark < cs.count pathMark := by
  obtain ⟨-, rfl⟩ := Text.splitFirst_eq_some_iff.mp h
  have hdot : '.' ≠ pathMark := by decide
  simp [List.count_append, List.count_cons_of_ne hdot]

/-- A clause in an envelope: it is tested on the objects under a path. -/
def nestedClause (path : String) (clause : Json) : Json :=
  .object [("nested", .object [("path", .text path), ("query", clause)])]

theorem envelope_eq_nestedClause : envelope = nestedClause := rfl

/-- The clause of a column whose marks are taken one by one. -/
def markedClause (leaf : LeafKind) (value : Json) (operator : Option Operator)
    (column : List Char) : Except CompileError Json :=
  match _h : Text.splitFirst pathMark column with
  | none => plainClause leaf (String.ofList column) value operator
  | some (parent, inner) => do
    return nestedClause (String.ofList parent)
      (← markedClause leaf value operator (parent ++ '.' :: inner))
termination_by column.count pathMark
decreasing_by exact count_lt_of_splitFirst _h

theorem clause_of_no_mark (h : pathMark ∉ column.toList) :
    clause leaf column value operator = plainClause leaf column value operator := by
  rw [clause, Text.cut_of_not_mem h]
  simp [pathClause]

theorem clause_of_mark (h : pathMark ∉ parent) (inner : List Char) :
    clause leaf (String.ofList (parent ++ pathMark :: inner)) value operator =
      (clause leaf (String.ofList (parent ++ '.' :: inner)) value operator).map
        (nestedClause (String.ofList parent)) := by
  have hdot : pathMark ∉ ['.'] := by decide
  have hcut : Text.cut pathMark (parent ++ '.' :: inner) =
      (parent ++ '.' :: (Text.cut pathMark inner).1, (Text.cut pathMark inner).2) := by
    have hrest : Text.cut pathMark ('.' :: inner) =
        ('.' :: (Text.cut pathMark inner).1, (Text.cut pathMark inner).2) :=
      Text.cut_append_of_not_mem hdot inner
    rw [Text.cut_append_of_not_mem h, hrest]
  rw [clause, clause, String.toList_ofList, String.toList_ofList, Text.cut_append _ h, hcut,
    ← envelope_eq_nestedClause]
  rfl

theorem clause_eq_markedClause (column : List Char) :
    clause leaf (String.ofList column) value operator =
      markedClause leaf value operator column := by
  -- the rebuilt column is no part of this one: the induction is on the number of marks
  induction hn : column.count pathMark using Nat.strongRecOn generalizing column with
  | ind n ih =>
    rw [markedClause]
    split
    · rename_i hnone
      have hmarks : pathMark ∉ (String.ofList column).toList := by
        rw [String.toList_ofList]
        exact Text.splitFirst_eq_none_iff.mp hnone
      exact clause_of_no_mark hmarks
    · rename_i parent inner hsome
      have hless := count_lt_of_splitFirst hsome
      obtain ⟨hparent, rfl⟩ := Text.splitFirst_eq_some_iff.mp hsome
      rw [clause_of_mark hparent, ih _ (hn ▸ hless) _ rfl]
      rfl

/-! ## All marks at once -/

variable {first step : String} {steps : List String}

/-- The paths that the marks of a column name, from the outermost to the innermost: the text before
a mark, with a dot for each mark in it. -/
def innerPaths (first : String) (steps : List String) : List String :=
  (List.range steps.length).map fun i => ".".intercalate ((first :: steps).take (i + 1))

theorem innerPaths_cons (first step : String) (steps : List String) :
    innerPaths first (step :: steps) = first :: innerPaths (first ++ "." ++ step) steps := by
  rw [innerPaths, List.length_cons, List.range_succ_eq_map, List.map_cons, List.map_map]
  refine congrArg (first :: ·) (List.map_congr_left fun i _ => ?_)
  simp [String.append_assoc]

theorem not_mem_append_dot (hfirst : pathMark ∉ first.toList) (hstep : pathMark ∉ step.toList) :
    pathMark ∉ (first ++ "." ++ step).toList := by
  have hdot : pathMark ∉ ".".toList := by decide
  simp only [String.toList_append, List.mem_append, not_or]
  exact ⟨⟨hfirst, hdot⟩, hstep⟩

/-- The first mark between pieces, with the pieces behind it. -/
theorem clause_join_cons (hfirst : pathMark ∉ first.toList) (step : String)
    (steps : List String) :
    clause leaf ("@".intercalate (first :: step :: steps)) value operator =
      (clause leaf ("@".intercalate ((first ++ "." ++ step) :: steps)) value operator).map
        (nestedClause first) := by
  have hmarked : "@".intercalate (first :: step :: steps) =
      String.ofList (first.toList ++ pathMark :: ("@".intercalate (step :: steps)).toList) := by
    rw [String.intercalate_cons_cons]
    exact String.toList_inj.mp (by simp [pathMark])
  have hdotted : "@".intercalate ((first ++ "." ++ step) :: steps) =
      String.ofList (first.toList ++ '.' :: ("@".intercalate (step :: steps)).toList) := by
    rw [String.intercalate_cons_append]
    exact String.toList_inj.mp (by simp)
  rw [hmarked, hdotted, clause_of_mark hfirst, String.ofList_toList]

theorem clause_join (h : ∀ piece ∈ first :: steps, pathMark ∉ piece.toList) :
    clause leaf ("@".intercalate (first :: steps)) value operator =
      (clause leaf (".".intercalate (first :: steps)) value operator).map fun c =>
        (innerPaths first steps).foldr nestedClause c := by
  induction steps generalizing first with
  | nil =>
    rw [String.intercalate_singleton, String.intercalate_singleton]
    cases clause leaf first value operator <;> rfl
  | cons step steps ih =>
    obtain ⟨hfirst, hsteps⟩ := List.forall_mem_cons.mp h
    obtain ⟨hstep, hsteps⟩ := List.forall_mem_cons.mp hsteps
    have hpieces : ∀ piece ∈ (first ++ "." ++ step) :: steps, pathMark ∉ piece.toList :=
      List.forall_mem_cons.mpr ⟨not_mem_append_dot hfirst hstep, hsteps⟩
    have hdots : ".".intercalate ((first ++ "." ++ step) :: steps) =
        ".".intercalate (first :: step :: steps) := by
      rw [String.intercalate_cons_append, String.intercalate_cons_cons]
    rw [clause_join_cons hfirst, ih hpieces, hdots, innerPaths_cons]
    cases clause leaf (".".intercalate (first :: step :: steps)) value operator <;> rfl

theorem not_mem_join (h : ∀ piece ∈ first :: steps, pathMark ∉ piece.toList) :
    pathMark ∉ (".".intercalate (first :: steps)).toList := by
  have hdot : "." = String.singleton '.' := by decide
  rw [hdot]
  exact Text.not_mem_intercalate (by decide) h

/-- **Marks expand to envelopes.** The clause of a column is what comes of taking its marks one by
one, which ends. For pieces without marks, of which any may be empty or have dots, the column that
joins them by marks has a clause exactly if the one that joins them by dots does, and fails with the
same error if not. Its clause is that of the column with dots, which has no envelope, in as many
envelopes as there are marks: the outermost has the first piece as its path, and the path of each
other one goes one piece further. -/
theorem marks_expand (leaf : LeafKind) (value : Json) (operator : Option Operator)
    (first : String) (steps : List String) (h : ∀ piece ∈ first :: steps, '@' ∉ piece.toList) :
    let marked := "@".intercalate (first :: steps)
    let dotted := ".".intercalate (first :: steps)
    clause leaf marked value operator = markedClause leaf value operator marked.toList ∧
      (∀ e, clause leaf marked value operator = .error e ↔
        clause leaf dotted value operator = .error e) ∧
      (∀ c, clause leaf marked value operator = .ok c ↔
        ∃ plain, clause leaf dotted value operator = .ok plain ∧
          (innerPaths first steps).foldr nestedClause plain = c) ∧
      clause leaf dotted value operator = plainClause leaf dotted value operator ∧
      (innerPaths first steps).length = steps.length := by
  intro marked dotted
  have hjoin : clause leaf marked value operator =
      (clause leaf dotted value operator).map fun c =>
        (innerPaths first steps).foldr nestedClause c :=
    clause_join h
  refine ⟨?_, fun e => ?_, fun c => ?_, clause_of_no_mark (not_mem_join h), by simp [innerPaths]⟩
  · rw [← clause_eq_markedClause, String.ofList_toList]
  · rw [hjoin, ← errorOf?_eq_some_iff, errorOf?_map, errorOf?_eq_some_iff]
  · rw [hjoin, map_eq_ok_iff]

/-- A column with marks at either end and next to each other, with a test that has a clause and one
that has none. -/
theorem marks_expand_empty :
    let pieces := ["", "", "b.", ""]
    let plain : Json := .object [("exists", .object [("field", .text "..b..")])]
    let third : Json := .object [("nested", .object [("path", .text "..b."), ("query", plain)])]
    let second : Json := .object [("nested", .object [("path", .text "."), ("query", third)])]
    (∀ piece ∈ pieces, '@' ∉ piece.toList) ∧ "@".intercalate pieces = "@@b.@" ∧
      clause .exists "@@b.@" .null (some .eq) =
        .ok (.object [("nested", .object [("path", .text ""), ("query", second)])]) ∧
      clause .range "@@b.@" .null (some .eq) =
        .error (.invalidPredicate "..b.." .boundless) := by
  intro pieces plain third second
  have hpieces : ∀ piece ∈ pieces, '@' ∉ piece.toList := by decide
  obtain ⟨-, -, hok, hplain, -⟩ :=
    marks_expand .exists .null (some .eq) "" ["", "b.", ""] hpieces
  obtain ⟨-, herror, -, hbad, -⟩ :=
    marks_expand .range .null (some .eq) "" ["", "b.", ""] hpieces
  exact ⟨hpieces, by decide, (hok _).mpr ⟨_, hplain, rfl⟩, (herror _).mpr hbad⟩

end DocSearch.Compile
