import DocSearch.Compile.BoolQuery
import DocSearch.Proofs.InnerPaths
import DocSearch.Query.Filters
import Mathlib.Data.List.Infix

/-!
# Wildcard patterns

The engine reads a pattern as steps: a star is any sequence of characters, a question mark any one
character, a backslash makes the character behind it stand for itself, and so does every other
character. The pattern of a needle puts a star on both sides of the needle and leaves the needle as
it is, so that the engine reads the needle as a pattern too.

* `Wildcard.fits_cons`, `Wildcard.fits_append`: which texts the steps of a pattern make up.
* `Wildcard.matches_containing_iff`: the texts that the pattern of a needle matches.
* `Wildcard.matches_iff_of_plain`: if the needle has none of the characters that stand for something
  else, these are the texts that it is a part of.
* `Wildcard.plain_of_matches_iff`: for no other needle they are.
* `like_matches_pattern`: a test for a needle.
-/

namespace DocSearch

namespace Wildcard

/-! ## The engine's syntax -/

/-- One step of a pattern. -/
inductive Step where
  | sequence
  | one
  | exactly (c : Char)

/-- What a character stands for that has no backslash before it. -/
def Step.of (c : Char) : Step :=
  if c = '*' then sequence else if c = '?' then one else exactly c

/-- The steps of a pattern, and whether a backslash is left open at its end. The flag tells whether
one is open at its beginning. -/
def read : Bool → List Char → List Step × Bool
  | escaped, [] => ([], escaped)
  | true, c :: cs => (.exactly c :: (read false cs).1, (read false cs).2)
  | false, c :: cs =>
    if c = '\\' then read true cs else (.of c :: (read false cs).1, (read false cs).2)

/-- Whether steps make up a text. -/
def fits : List Step → List Char → Bool
  | [], text => text.isEmpty
  | .sequence :: steps, text => text.tails.any (fits steps)
  | .one :: steps, text => !text.isEmpty && fits steps text.tail
  | .exactly c :: steps, text => text.head? == some c && fits steps text.tail

/-- Whether a pattern matches the whole of a text. A backslash at the end of a pattern stands for
itself. -/
def matches? (pattern text : String) : Bool :=
  let (steps, escaped) := read false pattern.toList
  fits (if escaped then steps ++ [.exactly '\\'] else steps) text.toList

/-! ## Matching -/

/-- The parts of a text that one step stands for. -/
def Step.Takes : Step → List Char → Prop
  | sequence, _ => True
  | one, part => ∃ c, part = [c]
  | exactly c, part => part = [c]

section Matching

variable {step : Step} {steps front back : List Step} {text : List Char}

theorem fits_nil : fits [] text = true ↔ text = [] := List.isEmpty_iff

theorem fits_cons :
    fits (step :: steps) text = true ↔
      ∃ part rest, text = part ++ rest ∧ step.Takes part ∧ fits steps rest = true := by
  cases step with
  | sequence =>
    simp only [fits, List.any_eq_true, List.mem_tails, Step.Takes, true_and]
    constructor
    · rintro ⟨rest, ⟨part, rfl⟩, hrest⟩
      exact ⟨part, rest, rfl, hrest⟩
    · rintro ⟨part, rest, rfl, hrest⟩
      exact ⟨rest, List.suffix_append part rest, hrest⟩
  | one =>
    constructor
    · intro h
      cases text with
      | nil => simp [fits] at h
      | cons c text => exact ⟨[c], text, rfl, ⟨c, rfl⟩, by simpa [fits] using h⟩
    · rintro ⟨-, rest, rfl, ⟨c, rfl⟩, hrest⟩
      simpa [fits] using hrest
  | exactly c =>
    constructor
    · intro h
      cases text with
      | nil => simp [fits] at h
      | cons d text =>
        simp only [fits, List.head?_cons, List.tail_cons, Bool.and_eq_true, beq_iff_eq,
          Option.some.injEq] at h
        exact ⟨[d], text, rfl, congrArg ([·]) h.1, h.2⟩
    · rintro ⟨-, rest, rfl, rfl, hrest⟩
      simpa [fits] using hrest

/-- Steps one after the other make up texts one after the other. -/
theorem fits_append :
    fits (front ++ back) text = true ↔
      ∃ before behind, text = before ++ behind ∧ fits front before = true ∧
        fits back behind = true := by
  induction front generalizing text with
  | nil => simp [fits_nil]
  | cons step front ih =>
    simp only [List.cons_append, fits_cons, ih]
    constructor
    · rintro ⟨part, -, rfl, hpart, before, behind, rfl, hbefore, hbehind⟩
      exact ⟨part ++ before, behind, by rw [List.append_assoc], ⟨part, before, rfl, hpart, hbefore⟩,
        hbehind⟩
    · rintro ⟨-, behind, rfl, ⟨part, before, rfl, hpart, hbefore⟩, hbehind⟩
      exact ⟨part, _, List.append_assoc _ _ _, hpart, before, behind, rfl, hbefore, hbehind⟩

theorem fits_singleton : fits [step] text = true ↔ step.Takes text := by
  rw [fits_cons]
  constructor
  · rintro ⟨part, rest, rfl, hpart, hrest⟩
    rwa [fits_nil.mp hrest, List.append_nil]
  · intro h
    exact ⟨text, [], (List.append_nil text).symm, h, rfl⟩

theorem fits_map_exactly {cs : List Char} : fits (cs.map .exactly) text = true ↔ text = cs := by
  induction cs generalizing text with
  | nil => exact fits_nil
  | cons c cs ih =>
    rw [List.map_cons, fits_cons]
    constructor
    · rintro ⟨-, rest, rfl, rfl, hrest⟩
      rw [ih.mp hrest]
      rfl
    · rintro rfl
      exact ⟨[c], cs, rfl, rfl, ih.mpr rfl⟩

/-- A part of a text that a step stands for. -/
def Step.sample : Step → List Char
  | sequence => []
  | one => ['x']
  | exactly c => [c]

theorem fits_sample (steps : List Step) : fits steps (steps.flatMap Step.sample) = true := by
  induction steps with
  | nil => rfl
  | cons step steps ih =>
    refine fits_cons.mpr ⟨step.sample, _, rfl, ?_, ih⟩
    cases step with
    | sequence => trivial
    | one => exact ⟨'x', rfl⟩
    | exactly c => rfl

theorem length_sample_le (steps : List Step) :
    (steps.flatMap Step.sample).length ≤ steps.length := by
  induction steps with
  | nil => rfl
  | cons step steps ih =>
    rw [List.flatMap_cons, List.length_append, List.length_cons]
    cases step <;> simp only [Step.sample, List.length_nil, List.length_singleton] <;> omega

end Matching

/-! ## Reading -/

/-- The characters stand for themselves, without a backslash. -/
def Plain (cs : List Char) : Prop := '*' ∉ cs ∧ '?' ∉ cs ∧ '\\' ∉ cs

instance (cs : List Char) : Decidable (Plain cs) := inferInstanceAs (Decidable (_ ∧ _ ∧ _))

section Reading

variable {escaped : Bool} {cs : List Char} {c : Char}

theorem plain_cons :
    Plain (c :: cs) ↔ (c ≠ '*' ∧ c ≠ '?' ∧ c ≠ '\\') ∧ Plain cs := by
  simp only [Plain, List.mem_cons, not_or]
  constructor
  · rintro ⟨⟨hstar, hstars⟩, ⟨hmark, hmarks⟩, hslash, hslashes⟩
    exact ⟨⟨Ne.symm hstar, Ne.symm hmark, Ne.symm hslash⟩, hstars, hmarks, hslashes⟩
  · rintro ⟨⟨hstar, hmark, hslash⟩, hstars, hmarks, hslashes⟩
    exact ⟨⟨Ne.symm hstar, hstars⟩, ⟨Ne.symm hmark, hmarks⟩, Ne.symm hslash, hslashes⟩

theorem read_append (escaped : Bool) (cs ds : List Char) :
    read escaped (cs ++ ds) =
      ((read escaped cs).1 ++ (read (read escaped cs).2 ds).1, (read (read escaped cs).2 ds).2) := by
  induction cs generalizing escaped with
  | nil => cases escaped <;> rfl
  | cons c cs ih =>
    cases escaped with
    | true => simp only [List.cons_append, read, ih]
    | false =>
      by_cases hc : c = '\\'
      · simp only [List.cons_append, read, if_pos hc, ih]
      · simp only [List.cons_append, read, if_neg hc, ih]

/-- Every step takes at least one character of the pattern. -/
theorem length_read_le (escaped : Bool) (cs : List Char) :
    (read escaped cs).1.length ≤ cs.length := by
  induction cs generalizing escaped with
  | nil => cases escaped <;> exact Nat.le_refl 0
  | cons c cs ih =>
    have hplain := ih false
    have hescaped := ih true
    cases escaped with
    | true => simpa only [read, List.length_cons, Nat.add_le_add_iff_right] using hplain
    | false =>
      rw [read]
      split
      · exact hescaped.trans (Nat.le_succ _)
      · simpa only [List.length_cons, Nat.add_le_add_iff_right] using hplain

/-- A backslash that is left open is the last character. -/
theorem getLast?_of_open (h : (read escaped cs).2 = true) :
    (cs = [] ∧ escaped = true) ∨ cs.getLast? = some '\\' := by
  induction cs generalizing escaped with
  | nil =>
    cases escaped with
    | true => exact Or.inl ⟨rfl, rfl⟩
    | false => cases h
  | cons c cs ih =>
    right
    rw [List.getLast?_cons]
    cases escaped with
    | true =>
      rcases ih h with ⟨-, hfalse⟩ | hlast
      · cases hfalse
      · rw [hlast, Option.getD_some]
    | false =>
      rw [read] at h
      split at h
      case isTrue hc =>
        rcases ih h with ⟨rfl, -⟩ | hlast
        · rw [hc, List.getLast?_nil, Option.getD_none]
        · rw [hlast, Option.getD_some]
      case isFalse =>
        rcases ih h with ⟨-, hfalse⟩ | hlast
        · cases hfalse
        · rw [hlast, Option.getD_some]

theorem read_of_plain (h : Plain cs) : read false cs = (cs.map .exactly, false) := by
  induction cs with
  | nil => rfl
  | cons c cs ih =>
    obtain ⟨⟨hstar, hmark, hslash⟩, hcs⟩ := plain_cons.mp h
    rw [read, if_neg hslash, ih hcs, Step.of, if_neg hstar, if_neg hmark, List.map_cons]

/-- Only characters that stand for themselves are a text that they make up: a star and a backslash
leave the text shorter than the pattern, and a question mark takes another character. -/
theorem plain_of_sample_eq (h : (read false cs).1.flatMap Step.sample = cs) : Plain cs := by
  induction cs with
  | nil => exact ⟨List.not_mem_nil, List.not_mem_nil, List.not_mem_nil⟩
  | cons c cs ih =>
    have hshorter : ∀ escaped, ((read escaped cs).1.flatMap Step.sample).length ≤ cs.length :=
      fun escaped => (length_sample_le _).trans (length_read_le escaped cs)
    rw [read] at h
    split at h
    case isTrue =>
      have hlength := congrArg List.length h
      have := hshorter true
      simp only [List.length_cons] at hlength
      omega
    case isFalse hslash =>
      rw [List.flatMap_cons, Step.of] at h
      by_cases hstar : c = '*'
      · have hlength := congrArg List.length h
        have := hshorter false
        simp only [if_pos hstar, Step.sample, List.nil_append, List.length_cons] at hlength
        omega
      · by_cases hmark : c = '?'
        · simp [hmark, Step.sample] at h
        · rw [if_neg hstar, if_neg hmark] at h
          exact plain_cons.mpr ⟨⟨hstar, hmark, hslash⟩, ih (List.cons.inj h).2⟩

end Reading

/-! ## The pattern of a needle -/

section Needle

open Compile

variable {needle text : String}

/-- The star behind a needle; a backslash that the needle leaves open makes it stand for itself. -/
def starBehind (escaped : Bool) : Step := if escaped then .exactly '*' else .sequence

theorem read_containing (needle : String) :
    read false (containing needle).toList =
      (.sequence :: ((read false needle.toList).1 ++ [starBehind (read false needle.toList).2]),
        false) := by
  have hlist : (containing needle).toList = '*' :: (needle.toList ++ ['*']) := by
    simp [containing]
  rw [hlist, read, if_neg (by decide), read_append]
  cases (read false needle.toList).2 <;> rfl

theorem takes_starBehind {escaped : Bool} {part : List Char} :
    (starBehind escaped).Takes part ↔ (escaped = true → part = ['*']) := by
  cases escaped <;> simp [starBehind, Step.Takes]

/-- The pattern of a needle matches a text with a part that the needle makes up as a pattern. Where
the needle ends in an open backslash, a star has to stand behind that part and end the text. -/
theorem matches_containing_iff :
    matches? (containing needle) text = true ↔
      ∃ front part back, text.toList = front ++ part ++ back ∧
        fits (read false needle.toList).1 part = true ∧
        ((read false needle.toList).2 = true → back = ['*']) := by
  simp only [matches?, read_containing, Bool.false_eq_true, if_false]
  rw [fits_cons]
  simp only [fits_append, fits_singleton, takes_starBehind]
  constructor
  · rintro ⟨front, -, htext, -, part, back, rfl, hpart, hback⟩
    exact ⟨front, part, back, by rw [htext, List.append_assoc], hpart, hback⟩
  · rintro ⟨front, part, back, htext, hpart, hback⟩
    exact ⟨front, part ++ back, by rw [htext, List.append_assoc], trivial, part, back, rfl, hpart,
      hback⟩

theorem matches_iff_of_plain (h : Plain needle.toList) :
    matches? (containing needle) text = true ↔ needle.toList <:+: text.toList := by
  rw [matches_containing_iff, read_of_plain h]
  simp only [fits_map_exactly, Bool.false_eq_true, false_implies, and_true]
  constructor
  · rintro ⟨front, -, back, htext, rfl⟩
    exact ⟨front, back, htext.symm⟩
  · rintro ⟨front, back, htext⟩
    exact ⟨front, _, back, htext.symm, rfl⟩

theorem plain_of_matches_iff
    (h : ∀ text : String, matches? (containing needle) text = true ↔
      needle.toList <:+: text.toList) : Plain needle.toList := by
  cases hopen : (read false needle.toList).2 with
  | true =>
    -- the needle itself is not found: it would have to end in a star
    exfalso
    obtain ⟨front, part, back, htext, -, hback⟩ :=
      matches_containing_iff.mp ((h needle).mpr List.infix_rfl)
    rw [hback hopen] at htext
    rcases getLast?_of_open hopen with ⟨-, hfalse⟩ | hlast
    · cases hfalse
    · rw [htext, List.getLast?_concat] at hlast
      cases hlast
  | false =>
    have hsample : matches? (containing needle)
        (String.ofList ((read false needle.toList).1.flatMap Step.sample)) = true := by
      refine matches_containing_iff.mpr ⟨[], _, [], ?_, fits_sample _, by simp [hopen]⟩
      rw [String.toList_ofList, List.nil_append, List.append_nil]
    have hpart := (h _).mp hsample
    rw [String.toList_ofList] at hpart
    have hlength := (length_sample_le _).trans (length_read_le false needle.toList)
    exact plain_of_sample_eq (hpart.eq_of_length (hpart.length_le.antisymm hlength)).symm

end Needle

end Wildcard

/-- **What a test for a needle finds.** On a column without path marks, the test of a text as the
needle has the pattern of the needle for its clause, and it matches a text with a part that the
needle makes up as a pattern, behind which a star ends the text if the needle leaves a backslash open
at its end. The matched texts are the ones that the needle is a part of exactly if the needle has no
star, question mark or backslash. -/
theorem like_matches_pattern (joined : Conjunction) {column : String}
    (hcolumn : Compile.pathMark ∉ column.toList) (needle : String) :
    ∃ pattern, Compile.member (.like joined column (.text needle)) =
        .ok ⟨joined = .or, false, .single "wildcard" (.single column (.text pattern))⟩ ∧
      (∀ text, Wildcard.matches? pattern text = true ↔
        ∃ front part back, text.toList = front ++ part ++ back ∧
          Wildcard.fits (Wildcard.read false needle.toList).1 part = true ∧
          ((Wildcard.read false needle.toList).2 = true → back = ['*'])) ∧
      ((∀ text : String, Wildcard.matches? pattern text = true ↔
          needle.toList <:+: text.toList) ↔
        Wildcard.Plain needle.toList) := by
  refine ⟨Compile.containing needle, ?_, fun text => Wildcard.matches_containing_iff, ?_⟩
  · rw [Predicate.like, Compile.member, Compile.clause_of_no_mark hcolumn]
    rfl
  · exact ⟨Wildcard.plain_of_matches_iff, fun h text => Wildcard.matches_iff_of_plain h⟩

/-- A needle that ends in a backslash is found where its other characters are and a star ends the
text, and so not just where it stands itself; a plain needle is. -/
theorem like_matches_pattern_backslash :
    let searches (needle pattern : String) : Prop :=
      Compile.member (.like .and "path" (.text needle)) =
        .ok ⟨false, false, .single "wildcard" (.single "path" (.text pattern))⟩
    Compile.pathMark ∉ "path".toList ∧
      (∃ pattern, searches "C:\\" pattern ∧ Wildcard.matches? pattern "C:*" = true ∧
        ¬ ∀ text : String, Wildcard.matches? pattern text = true ↔
          "C:\\".toList <:+: text.toList) ∧
      ∃ pattern, searches "ada" pattern ∧
        ∀ text : String, Wildcard.matches? pattern text = true ↔
          "ada".toList <:+: text.toList := by
  intro searches
  have hcolumn : Compile.pathMark ∉ "path".toList := by decide
  obtain ⟨opened, hopened, hmatches, hfinds⟩ := like_matches_pattern .and hcolumn "C:\\"
  obtain ⟨plain, hplain, -, hfinds'⟩ := like_matches_pattern .and hcolumn "ada"
  refine ⟨hcolumn, ⟨opened, hopened, ?_, ?_⟩, plain, hplain, hfinds'.mpr (by decide)⟩
  · exact (hmatches _).mpr ⟨[], ['C', ':'], ['*'], by decide, by decide, fun _ => rfl⟩
  · exact fun h => absurd (hfinds.mp h) (by decide)

/-- A needle that stands in a text and is not found there. -/
theorem not_like_finds_needle :
    ¬ ∀ (column needle text pattern : String), Compile.pathMark ∉ column.toList →
      Compile.member (.like .and column (.text needle)) =
        .ok ⟨false, false, .single "wildcard" (.single column (.text pattern))⟩ →
      (Wildcard.matches? pattern text = true ↔ needle.toList <:+: text.toList) := by
  intro h
  have hfound := (h "path" "C:\\" "C:\\dir" "*C:\\*" (by decide) rfl).mpr (by decide)
  exact absurd hfound (by decide)

end DocSearch
