import DocSearch.Compile.BoolQuery
import DocSearch.Proofs.Fields
import Mathlib.Data.List.Basic

/-!
# Reading query documents

A query document is a boolean query, the query that every document matches, or a leaf clause.
This file reads the first kind (`boolClauses?`) and says three things of a document by
recursion on that reading:

* `Holds`: whether it holds, given which leaf clauses hold;
* `signedLeaves`: the documents at its leaves, each with whether it stands under a `must_not`;
* `Within`: the documents that stand in it at any depth.

Each has one equation for a boolean query and one for any other document. The four forms of
boolean query that a list of predicates compiles to are read once, in the last section.
-/

namespace DocSearch.Compile

/-! ## The clauses of a boolean query -/

/-- The clauses of a boolean query. -/
structure BoolClauses where
  must : List Json
  mustNot : List Json
  /-- One of them has to hold, if the query has any such list. -/
  should : Option (List Json)

def BoolClauses.all (b : BoolClauses) : List Json := b.must ++ b.mustNot ++ b.should.getD []

def boolParts? : Json → Option Json.Fields
  | .object [("bool", .object parts)] => some parts
  | _ => none

/-- The clauses that a part of a boolean query lists: those of an array, or the one that is
there. -/
def clausesIn : Json → List Json
  | .array clauses => clauses
  | clause => [clause]

/-- The clauses of a boolean query, if a document is one. -/
def boolClauses? (q : Json) : Option BoolClauses :=
  (boolParts? q).map fun parts =>
    { must := ((parts.get? "must").map clausesIn).getD []
      mustNot := ((parts.get? "must_not").map clausesIn).getD []
      should := (parts.get? "should").map clausesIn }

theorem sizeOf_lt_of_mem_clausesIn {fields : Json.Fields} {key : String} {c : Json}
    (h : c ∈ ((fields.get? key).map clausesIn).getD []) : sizeOf c < sizeOf fields := by
  cases hget : fields.get? key with
  | none =>
    rw [hget] at h
    cases h
  | some value =>
    rw [hget] at h
    have hfield := List.sizeOf_lt_of_mem (Json.Fields.mem_of_get? hget)
    simp only [Prod.mk.sizeOf_spec] at hfield
    have hvalue : sizeOf c ≤ sizeOf value := by
      simp only [Option.map_some, Option.getD_some, clausesIn] at h
      split at h
      · have := List.sizeOf_lt_of_mem h
        simp only [Json.array.sizeOf_spec]
        omega
      · obtain rfl := List.mem_singleton.mp h
        exact Nat.le_refl _
    omega

/-- The clauses of a boolean query are smaller than it: recursion on them ends. -/
theorem sizeOf_lt_of_mem_all {q c : Json} {b : BoolClauses} (hq : boolClauses? q = some b)
    (hc : c ∈ b.all) : sizeOf c < sizeOf q := by
  obtain ⟨parts, hparts, rfl⟩ := Option.map_eq_some_iff.mp hq
  have hlt : sizeOf parts < sizeOf q := by
    unfold boolParts? at hparts
    split at hparts
    · cases hparts
      simp only [Json.object.sizeOf_spec, List.cons.sizeOf_spec, Prod.mk.sizeOf_spec]
      omega
    · cases hparts
  refine Nat.lt_trans ?_ hlt
  simp only [BoolClauses.all, List.mem_append] at hc
  rcases hc with (hc | hc) | hc
  · exact sizeOf_lt_of_mem_clausesIn hc
  · exact sizeOf_lt_of_mem_clausesIn hc
  · exact sizeOf_lt_of_mem_clausesIn hc

theorem mem_all_of_mem_must {b : BoolClauses} {c : Json} (h : c ∈ b.must) : c ∈ b.all := by
  simp [BoolClauses.all, h]

theorem mem_all_of_mem_mustNot {b : BoolClauses} {c : Json} (h : c ∈ b.mustNot) : c ∈ b.all := by
  simp [BoolClauses.all, h]

theorem mem_all_of_mem_should {b : BoolClauses} {c : Json} {clauses : List Json}
    (hb : b.should = some clauses) (h : c ∈ clauses) : c ∈ b.all := by
  simp [BoolClauses.all, hb, h]

theorem must_eq_of_get? {q : Json} {parts : Json.Fields} {b : BoolClauses} {clauses : List Json}
    (hq : boolParts? q = some parts) (hb : boolClauses? q = some b)
    (h : parts.get? "must" = some (.array clauses)) : b.must = clauses := by
  rw [boolClauses?, hq] at hb
  cases hb
  simp [h, clausesIn]

theorem mustNot_eq_of_get? {q : Json} {parts : Json.Fields} {b : BoolClauses} {clauses : List Json}
    (hq : boolParts? q = some parts) (hb : boolClauses? q = some b)
    (h : parts.get? "must_not" = some (.array clauses)) : b.mustNot = clauses := by
  rw [boolClauses?, hq] at hb
  cases hb
  simp [h, clausesIn]

/-! ## Which documents hold -/

/-- Which leaf clauses hold. -/
abbrev Valuation := Json → Prop

/-- Whether a query document holds. A boolean query holds if all of its `must` clauses do,
none of its `must_not` clauses does and, when it has a `should`, one of those does. -/
def Holds (v : Valuation) (q : Json) : Prop :=
  match _h : boolClauses? q with
  | some b =>
    (∀ c, c ∈ b.must → Holds v c) ∧ (∀ c, c ∈ b.mustNot → ¬ Holds v c) ∧
      ∀ clauses, b.should = some clauses → ∃ c, ∃ _ : c ∈ clauses, Holds v c
  | none => q = .object [("match_all", .object [])] ∨ v q
termination_by sizeOf q
decreasing_by
  · exact sizeOf_lt_of_mem_all _h (mem_all_of_mem_must ‹_›)
  · exact sizeOf_lt_of_mem_all _h (mem_all_of_mem_mustNot ‹_›)
  · exact sizeOf_lt_of_mem_all _h (mem_all_of_mem_should ‹_› ‹_›)

theorem holds_bool {v : Valuation} {q : Json} {b : BoolClauses} (h : boolClauses? q = some b) :
    Holds v q ↔ (∀ c ∈ b.must, Holds v c) ∧ (∀ c ∈ b.mustNot, ¬ Holds v c) ∧
      ∀ clauses, b.should = some clauses → ∃ c ∈ clauses, Holds v c := by
  rw [Holds]
  split
  · rename_i b' h'
    cases h.symm.trans h'
    simp only [exists_prop]
  · rename_i h'
    cases h.symm.trans h'

theorem holds_not_bool {v : Valuation} {q : Json} (h : boolClauses? q = none) :
    Holds v q ↔ q = .object [("match_all", .object [])] ∨ v q := by
  rw [Holds]
  split
  · rename_i h'
    cases h.symm.trans h'
  · rfl

/-! ## The leaves of a document -/

/-- The documents at the leaves of a query document, each with whether it stands directly
under a `must_not`; `negative` tells it for the document itself. -/
def signedLeaves (negative : Bool) (q : Json) : List (Bool × Json) :=
  match _h : boolClauses? q with
  | some b =>
    b.must.attach.flatMap (fun c => signedLeaves false c.1) ++
      b.mustNot.attach.flatMap (fun c => signedLeaves true c.1) ++
      (b.should.getD []).attach.flatMap (fun c => signedLeaves false c.1)
  | none => [(negative, q)]
termination_by sizeOf q
decreasing_by
  all_goals
    refine sizeOf_lt_of_mem_all _h ?_
    simp [BoolClauses.all, c.2]

theorem signedLeaves_bool {negative : Bool} {q : Json} {b : BoolClauses}
    (h : boolClauses? q = some b) :
    signedLeaves negative q =
      b.must.flatMap (signedLeaves false) ++ b.mustNot.flatMap (signedLeaves true) ++
        (b.should.getD []).flatMap (signedLeaves false) := by
  rw [signedLeaves]
  split
  · rename_i b' h'
    cases h.symm.trans h'
    simp only [List.flatMap_subtype, List.unattach_attach]
  · rename_i h'
    cases h.symm.trans h'

theorem signedLeaves_not_bool {negative : Bool} {q : Json} (h : boolClauses? q = none) :
    signedLeaves negative q = [(negative, q)] := by
  rw [signedLeaves]
  split
  · rename_i h'
    cases h.symm.trans h'
  · rfl

/-! ## The documents in a document -/

/-- `Within q d`: the document `d` is `q` or stands in it as a clause, at any depth. -/
inductive Within (q : Json) : Json → Prop
  | self : Within q q
  | clause {d c : Json} {b : BoolClauses} (hd : Within q d) (hb : boolClauses? d = some b)
      (hc : c ∈ b.all) : Within q c

theorem Within.eq_or_clause {q d : Json} (h : Within q d) :
    d = q ∨ ∃ b, boolClauses? q = some b ∧ ∃ c ∈ b.all, Within c d := by
  induction h with
  | self => exact Or.inl rfl
  | @clause d c b _ hb hc ih =>
    rcases ih with rfl | ⟨b', hb', c', hc', hd⟩
    · exact Or.inr ⟨b, hb, c, hc, .self⟩
    · exact Or.inr ⟨b', hb', c', hc', .clause hd hb hc⟩

theorem Within.eq_of_not_bool {q d : Json} (h : Within q d) (hq : boolClauses? q = none) :
    d = q := by
  rcases h.eq_or_clause with rfl | ⟨b, hb, -⟩
  · rfl
  · cases hq.symm.trans hb

/-! ## Leaf clauses -/

/-- A leaf clause: an object of one field that is neither a boolean query nor the query that
every document matches. -/
def IsLeaf (c : Json) : Prop :=
  ∃ name body, c = .single name body ∧ name ≠ "bool" ∧ name ≠ "match_all"

namespace IsLeaf

theorem boolParts?_eq_none {c : Json} (h : IsLeaf c) : boolParts? c = none := by
  obtain ⟨name, body, rfl, hbool, -⟩ := h
  unfold boolParts? Json.single
  split
  · rename_i heq
    cases heq
    exact (hbool rfl).elim
  · rfl

theorem boolClauses?_eq_none {c : Json} (h : IsLeaf c) : boolClauses? c = none := by
  rw [boolClauses?, h.boolParts?_eq_none]
  rfl

theorem holds_iff {v : Valuation} {c : Json} (h : IsLeaf c) : Holds v c ↔ v c := by
  rw [holds_not_bool h.boolClauses?_eq_none, or_iff_right]
  rintro rfl
  obtain ⟨name, body, hc, -, hname⟩ := h
  cases hc
  exact hname rfl

theorem clausesIn_eq {c : Json} (h : IsLeaf c) : clausesIn c = [c] := by
  obtain ⟨name, body, rfl, -⟩ := h
  rfl

end IsLeaf

/-! ## The forms that predicates compile to -/

theorem boolParts?_single (parts : Json.Fields) :
    boolParts? (.single "bool" (.object parts)) = some parts := rfl

@[simp]
theorem boolClauses?_matchAll : boolClauses? matchAll = none := rfl

@[simp]
theorem boolClauses?_allOf (clauses : List Json) :
    boolClauses? (allOf clauses) = some ⟨clauses, [], none⟩ := rfl

theorem boolClauses?_noneOf {c : Json} (h : IsLeaf c) :
    boolClauses? (noneOf c) = some ⟨[], [c], none⟩ := by
  have hread : boolClauses? (noneOf c) = some ⟨[], clausesIn c, none⟩ := rfl
  rw [hread, h.clausesIn_eq]

theorem boolClauses?_conjunction (must mustNot : List Json) :
    boolClauses? (.single "bool" (.object (part "must" must ++ part "must_not" mustNot))) =
      some ⟨must, mustNot, none⟩ := by
  cases must <;> cases mustNot <;> rfl

end DocSearch.Compile
