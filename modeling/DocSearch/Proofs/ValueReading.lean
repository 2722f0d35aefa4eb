import DocSearch.Proofs.TextReading
import DocSearch.Proofs.ValueShape

/-!
# Reading values back

A value may be written with any blanks before its members, before its closing brackets and after
its colons. The two ways in which values are written differ in these blanks only, and what is
written is read as the value that it was: provided that the fields of its objects stand in the
order of their keys, that its numbers are read back, and that it nests no deeper than the reader
follows.

* `spaced_compact`, `spaced_pretty`: the two ways, as spacings.
* `Reader.object?_spaced`: the fields of an object are read in the order in which they are written.
* `Reader.value?_spaced`, `readWithin?_spaced`: a value is read back.
-/

namespace DocSearch.Json

/-! ## Spacings -/

/-- The blanks that stand before a member of a level and before the bracket that closes one, and
those after a colon. -/
structure Spacing where
  line : Nat → List Char
  gap : List Char
  isSpace_line : ∀ level, ∀ c ∈ line level, Reader.isSpace c = true
  isSpace_gap : ∀ c ∈ gap, Reader.isSpace c = true

mutual

/-- A value of a level, with the blanks of a spacing. -/
def spaced (S : Spacing) (level : Nat) : Json → List Char
  | .null => ['n', 'u', 'l', 'l']
  | .bool b => keyword b
  | .number n => n.text
  | .text s => quoted s
  | .array [] => ['[', ']']
  | .array (item :: items) =>
    '[' :: (S.line (level + 1) ++ spaced S (level + 1) item ++ spacedItems S level items)
  | .object [] => ['{', '}']
  | .object ((key, value) :: fields) =>
    '{' :: (S.line (level + 1) ++ quoted key ++ ':' :: (S.gap ++
      (spaced S (level + 1) value ++ spacedFields S level fields)))

/-- The items of an array after the first, and its end. -/
def spacedItems (S : Spacing) (level : Nat) : List Json → List Char
  | [] => S.line level ++ [']']
  | item :: items =>
    ',' :: (S.line (level + 1) ++ spaced S (level + 1) item ++ spacedItems S level items)

/-- The fields of an object after the first, and its end. -/
def spacedFields (S : Spacing) (level : Nat) : List (String × Json) → List Char
  | [] => S.line level ++ ['}']
  | (key, value) :: fields =>
    ',' :: (S.line (level + 1) ++ quoted key ++ ':' :: (S.gap ++
      (spaced S (level + 1) value ++ spacedFields S level fields)))

end

namespace Spacing

def compact : Spacing where
  line _ := []
  gap := []
  isSpace_line _ := List.forall_mem_nil _
  isSpace_gap := List.forall_mem_nil _

def pretty : Spacing where
  line := newLine
  gap := [' ']
  isSpace_line level c hc := by
    rcases List.mem_cons.mp hc with rfl | hc
    · rfl
    · rw [List.eq_of_mem_replicate hc]
      rfl
  isSpace_gap := List.forall_mem_singleton.mpr rfl

end Spacing

mutual

theorem spaced_compact (level : Nat) : ∀ j, spaced .compact level j = compactChars j
  | .null => rfl
  | .bool _ => rfl
  | .number _ => rfl
  | .text _ => rfl
  | .array [] => rfl
  | .array (item :: items) => by
    rw [spaced, compactChars, spaced_compact (level + 1) item, spacedItems_compact level items]
    rfl
  | .object [] => rfl
  | .object ((key, value) :: fields) => by
    rw [spaced, compactChars, spaced_compact (level + 1) value, spacedFields_compact level fields]
    rfl

theorem spacedItems_compact (level : Nat) :
    ∀ items, spacedItems .compact level items = compactItems items
  | [] => rfl
  | item :: items => by
    rw [spacedItems, compactItems, spaced_compact (level + 1) item, spacedItems_compact level items]
    rfl

theorem spacedFields_compact (level : Nat) :
    ∀ fields, spacedFields .compact level fields = compactFields fields
  | [] => rfl
  | (key, value) :: fields => by
    rw [spacedFields, compactFields, spaced_compact (level + 1) value,
      spacedFields_compact level fields]
    rfl

end

mutual

theorem spaced_pretty (level : Nat) : ∀ j, spaced .pretty level j = prettyChars level j
  | .null => rfl
  | .bool _ => rfl
  | .number _ => rfl
  | .text _ => rfl
  | .array [] => rfl
  | .array (item :: items) => by
    rw [spaced, prettyChars, spaced_pretty (level + 1) item, spacedItems_pretty level items]
    rfl
  | .object [] => rfl
  | .object ((key, value) :: fields) => by
    rw [spaced, prettyChars, spaced_pretty (level + 1) value, spacedFields_pretty level fields]
    rfl

theorem spacedItems_pretty (level : Nat) :
    ∀ items, spacedItems .pretty level items = prettyItems level items
  | [] => rfl
  | item :: items => by
    rw [spacedItems, prettyItems, spaced_pretty (level + 1) item, spacedItems_pretty level items]
    rfl

theorem spacedFields_pretty (level : Nat) :
    ∀ fields, spacedFields .pretty level fields = prettyFields level fields
  | [] => rfl
  | (key, value) :: fields => by
    rw [spacedFields, prettyFields, spaced_pretty (level + 1) value,
      spacedFields_pretty level fields]
    rfl

end

/-! ## Reading -/

namespace Reader

variable {S : Spacing} {level fuel depth : Nat} {cs rest : List Char} {c : Char}

theorem skipSpace_append {blanks : List Char} (h : ∀ c ∈ blanks, isSpace c = true) :
    skipSpace (blanks ++ cs) = skipSpace cs :=
  List.dropWhile_append_of_pos h

theorem skipSpace_cons (h : isSpace c = false) : skipSpace (c :: cs) = c :: cs :=
  List.dropWhile_cons_of_neg (by simp [h])

/-- The characters at which a number ends. -/
def endsNumber (c : Char) : Bool := isSpace c || c == ',' || c == ']' || c == '}'

theorem numberEnds_cons (h : endsNumber c = true) : NumberEnds (c :: cs) := by
  rintro _ ⟨⟩
  simp only [endsNumber, isSpace, Bool.or_eq_true, beq_iff_eq] at h
  rcases h with (((((rfl | rfl) | rfl) | rfl) | rfl) | rfl) | rfl <;> decide

theorem numberEnds_line (hc : endsNumber c = true) : NumberEnds (S.line level ++ c :: cs) := by
  cases hline : S.line level with
  | nil => exact numberEnds_cons hc
  | cons blank blanks =>
    have hblank : isSpace blank = true := S.isSpace_line level blank (hline ▸ List.mem_cons_self)
    exact numberEnds_cons (by simp [endsNumber, hblank])

theorem numberEnds_spacedItems (items : List Json) :
    NumberEnds (spacedItems S level items ++ rest) := by
  cases items with
  | nil =>
    rw [spacedItems, List.append_assoc]
    exact numberEnds_line rfl
  | cons item items => exact numberEnds_cons rfl

theorem numberEnds_spacedFields (fields : Fields) :
    NumberEnds (spacedFields S level fields ++ rest) := by
  cases fields with
  | nil =>
    rw [spacedFields, List.append_assoc]
    exact numberEnds_line rfl
  | cons field fields => exact numberEnds_cons rfl

/-- A number may begin with the character. -/
def BeginsNumber (c : Char) : Prop := c = '-' ∨ (digit? c).isSome

theorem begins_number {n : Number} (hn : n.ReadsBack) :
    ∃ c cs, n.text = c :: cs ∧ BeginsNumber c := by
  have hread := hn [] (by simp [NumberEnds])
  rw [List.append_nil] at hread
  exact head_of_number? hread

/-- The characters that are no beginning of a number: blanks, a closing bracket, and the beginnings
of the other values. -/
def otherBeginnings : List Char := [' ', '\t', '\n', '\r', ']', 'n', 't', 'f', '"', '[', '{']

theorem not_mem_otherBeginnings (h : BeginsNumber c) : c ∉ otherBeginnings := by
  have hnone : otherBeginnings.all (fun c => c != '-' && (digit? c).isNone) = true := rfl
  intro hc
  have hc := List.all_eq_true.mp hnone c hc
  rcases h with rfl | hdigit
  · cases hc
  · simp [Option.isSome_iff_ne_none.mp hdigit] at hc

/-- A value begins with a character that is no blank and closes no array. -/
theorem begins_spaced (S : Spacing) (level : Nat) {j : Json} (hj : j.Numbers Number.ReadsBack) :
    ∃ c cs, spaced S level j = c :: cs ∧ isSpace c = false ∧ c ≠ ']' := by
  cases j with
  | null => exact ⟨'n', _, rfl, rfl, by decide⟩
  | bool b => cases b with
    | true => exact ⟨'t', _, rfl, rfl, by decide⟩
    | false => exact ⟨'f', _, rfl, rfl, by decide⟩
  | text s => exact ⟨'"', _, rfl, rfl, by decide⟩
  | array items => cases items with
    | nil => exact ⟨'[', _, rfl, rfl, by decide⟩
    | cons item items => exact ⟨'[', _, rfl, rfl, by decide⟩
  | object fields => cases fields with
    | nil => exact ⟨'{', _, rfl, rfl, by decide⟩
    | cons field fields => exact ⟨'{', _, rfl, rfl, by decide⟩
  | number n =>
    cases hj with
    | number hn =>
      obtain ⟨c, cs, hcs, hc⟩ := begins_number hn
      have hother := not_mem_otherBeginnings hc
      simp only [otherBeginnings, List.mem_cons, not_or] at hother
      obtain ⟨hspace, htab, hfeed, hreturn, hbracket, -⟩ := hother
      exact ⟨c, cs, hcs, by simp [isSpace, hspace, htab, hfeed, hreturn], hbracket⟩

theorem value?_number {n : Number} (hn : n.ReadsBack) (hrest : NumberEnds rest) :
    value? .kept fuel depth (n.text ++ rest) = some (.number n, rest) := by
  have hread := hn rest hrest
  obtain ⟨c, cs, hcs, hc⟩ := begins_number hn
  rw [hcs, List.cons_append] at hread ⊢
  have hother := not_mem_otherBeginnings hc
  simp only [otherBeginnings, List.mem_cons, not_or] at hother
  obtain ⟨-, -, -, -, -, hn, ht, hf, hquote, hbracket, hbrace, -⟩ := hother
  cases depth <;> simp [value?, hn, ht, hf, hquote, hbracket, hbrace, hread]

theorem value?_text (s : String) :
    value? .kept fuel depth (quoted s ++ rest) = some (.text s, rest) := by
  have hquoted : quoted s ++ rest = '"' :: (s.toList.flatMap escape ++ '"' :: rest) := by
    simp [quoted]
  rw [hquoted]
  cases depth <;> simp [value?, text?_quoted]

/-- Before a value of a level there are blanks only. -/
theorem skipSpace_spaced {blanks : List Char} (hblanks : ∀ c ∈ blanks, isSpace c = true) {j : Json}
    (hj : j.Numbers Number.ReadsBack) :
    skipSpace (blanks ++ (spaced S level j ++ cs)) = spaced S level j ++ cs := by
  obtain ⟨c, more, hmore, hc, -⟩ := begins_spaced S level hj
  rw [skipSpace_append hblanks, hmore]
  exact skipSpace_cons hc

/-- The reader reads a value of a level, wherever it ends. -/
def Reads (S : Spacing) (level : Nat) (item? : List Char → Option (Json × List Char)) (j : Json) :
    Prop :=
  j.Numbers Number.ReadsBack ∧
    ∀ rest, NumberEnds rest → item? (spaced S level j ++ rest) = some (j, rest)

theorem items?_spaced {item? : List Char → Option (Json × List Char)} {item : Json}
    {items : List Json} (rest : List Char)
    (hread : ∀ i ∈ item :: items, Reads S (level + 1) item? i) (hfuel : items.length < fuel) :
    items? item? fuel (S.line (level + 1) ++
      (spaced S (level + 1) item ++ (spacedItems S level items ++ rest))) =
        some (item :: items, rest) := by
  induction items generalizing item fuel with
  | nil =>
    obtain ⟨fuel, rfl⟩ : ∃ k, fuel = k + 1 := ⟨fuel - 1, by omega⟩
    obtain ⟨hitem, hreads⟩ := hread item List.mem_cons_self
    have hclose : skipSpace (spacedItems S level [] ++ rest) = ']' :: rest := by
      rw [spacedItems, List.append_assoc, skipSpace_append (S.isSpace_line level)]
      exact skipSpace_cons rfl
    simp only [items?, skipSpace_spaced (S.isSpace_line _) hitem,
      hreads _ (numberEnds_spacedItems []), hclose, bind, Option.bind]
  | cons next items ih =>
    obtain ⟨fuel, rfl⟩ : ∃ k, fuel = k + 1 := ⟨fuel - 1, by omega⟩
    obtain ⟨hitem, hreads⟩ := hread item List.mem_cons_self
    have hmore := ih (fun i hi => hread i (List.mem_cons_of_mem _ hi))
      (Nat.lt_of_succ_lt_succ hfuel)
    have hcomma : skipSpace (spacedItems S level (next :: items) ++ rest) =
        ',' :: (S.line (level + 1) ++
          (spaced S (level + 1) next ++ (spacedItems S level items ++ rest))) := by
      simp only [spacedItems, List.cons_append, List.append_assoc]
      exact skipSpace_cons rfl
    simp only [items?, skipSpace_spaced (S.isSpace_line _) hitem,
      hreads _ (numberEnds_spacedItems (next :: items)), hcomma, hmore, bind, Option.bind]

theorem field?_spaced {member? : String → List Char → Option (Json × List Char)}
    {blanks : List Char} (hblanks : ∀ c ∈ blanks, isSpace c = true) {key : String} {value : Json}
    (hread : Reads S level (member? key) value) (hrest : NumberEnds rest) :
    field? .kept member?
        (blanks ++ (quoted key ++ ':' :: (S.gap ++ (spaced S level value ++ rest)))) =
      some ((key, value), rest) := by
  obtain ⟨hvalue, hreads⟩ := hread
  have hquote : ∀ more, skipSpace (blanks ++ (quoted key ++ more)) =
      '"' :: (key.toList.flatMap escape ++ '"' :: more) := by
    intro more
    rw [skipSpace_append hblanks]
    simp only [quoted, List.cons_append, List.append_assoc, List.nil_append]
    exact skipSpace_cons rfl
  have hcolon : ∀ cs, skipSpace (':' :: cs) = ':' :: cs := fun _ => skipSpace_cons rfl
  simp only [field?, hquote, text?_quoted, hcolon, skipSpace_spaced S.isSpace_gap hvalue,
    hreads rest hrest, bind, Option.bind]

theorem fields?_spaced {member? : String → List Char → Option (Json × List Char)}
    {key : String} {value : Json} {fields : Fields} (rest : List Char)
    (hread : ∀ f ∈ (key, value) :: fields, Reads S (level + 1) (member? f.1) f.2)
    (hfuel : fields.length < fuel) :
    fields? .kept member? fuel (S.line (level + 1) ++ (quoted key ++ ':' :: (S.gap ++
      (spaced S (level + 1) value ++ (spacedFields S level fields ++ rest))))) =
        some ((key, value) :: fields, rest) := by
  induction fields generalizing key value fuel with
  | nil =>
    obtain ⟨fuel, rfl⟩ : ∃ k, fuel = k + 1 := ⟨fuel - 1, by omega⟩
    have hfield := hread (key, value) List.mem_cons_self
    have hclose : skipSpace (spacedFields S level [] ++ rest) = '}' :: rest := by
      rw [spacedFields, List.append_assoc, skipSpace_append (S.isSpace_line level)]
      exact skipSpace_cons rfl
    simp only [fields?, field?_spaced (S.isSpace_line _) hfield (numberEnds_spacedFields []),
      hclose, bind, Option.bind]
  | cons next fields ih =>
    obtain ⟨nextKey, nextValue⟩ := next
    obtain ⟨fuel, rfl⟩ : ∃ k, fuel = k + 1 := ⟨fuel - 1, by omega⟩
    have hfield := hread (key, value) List.mem_cons_self
    have hmore := ih (fun f hf => hread f (List.mem_cons_of_mem _ hf))
      (Nat.lt_of_succ_lt_succ hfuel)
    have hcomma : skipSpace (spacedFields S level ((nextKey, nextValue) :: fields) ++ rest) =
        ',' :: (S.line (level + 1) ++ (quoted nextKey ++ ':' :: (S.gap ++
          (spaced S (level + 1) nextValue ++ (spacedFields S level fields ++ rest))))) := by
      simp only [spacedFields, List.cons_append, List.append_assoc]
      exact skipSpace_cons rfl
    simp only [fields?, field?_spaced (S.isSpace_line _) hfield (numberEnds_spacedFields _),
      hcomma, hmore, bind, Option.bind]

/-! ### Arrays and objects -/

theorem array?_spaced {item? : List Char → Option (Json × List Char)} {items : List Json}
    (rest : List Char) (hread : ∀ i ∈ items, Reads S (level + 1) item? i)
    (hfuel : items.length ≤ fuel) :
    ∃ cs, spaced S level (.array items) ++ rest = '[' :: cs ∧
      array? item? fuel cs = some (items, rest) := by
  cases items with
  | nil => exact ⟨_, rfl, rfl⟩
  | cons item items =>
    refine ⟨_, by rw [spaced, List.cons_append], ?_⟩
    have hitems := items?_spaced rest hread hfuel
    obtain ⟨c, cs, hcs, hc, hbracket⟩ :=
      begins_spaced S (level + 1) (hread item List.mem_cons_self).1
    rw [List.append_assoc, List.append_assoc, array?]
    split
    · rename_i hclose
      rw [skipSpace_spaced (S.isSpace_line _) (hread item List.mem_cons_self).1, hcs] at hclose
      exact absurd (List.cons.inj hclose).1 hbracket
    · exact hitems

/-- The fields of an object are read in the order in which they are written. -/
theorem object?_spaced (member? : String → List Char → Option (Json × List Char))
    {fields : Fields} (rest : List Char)
    (hread : ∀ f ∈ fields, Reads S (level + 1) (member? f.1) f.2)
    (hfuel : fields.length ≤ fuel) :
    ∃ cs, spaced S level (.object fields) ++ rest = '{' :: cs ∧
      object? .kept member? fuel cs = some (fields, rest) := by
  cases fields with
  | nil => exact ⟨_, rfl, rfl⟩
  | cons field fields =>
    obtain ⟨key, value⟩ := field
    refine ⟨_, by rw [spaced, List.cons_append], ?_⟩
    have hfields := fields?_spaced rest hread hfuel
    simp only [List.append_assoc, List.cons_append]
    rw [object?]
    split
    · rename_i hclose
      rw [skipSpace_append (S.isSpace_line _), quoted, List.cons_append,
        skipSpace_cons rfl] at hclose
      cases (List.cons.inj hclose).1
    · exact hfields

/-! ### Values -/

theorem length_lt_spacedItems (S : Spacing) (level : Nat) (items : List Json) :
    items.length < (spacedItems S level items).length ∧
      ∀ item ∈ items, (spaced S (level + 1) item).length < (spacedItems S level items).length := by
  induction items with
  | nil => simp [spacedItems]
  | cons item items ih =>
    obtain ⟨hcount, hlength⟩ := ih
    simp only [spacedItems, List.length_cons, List.length_append, List.forall_mem_cons]
    refine ⟨by omega, by omega, fun i hi => ?_⟩
    have := hlength i hi
    omega

theorem length_lt_spacedFields (S : Spacing) (level : Nat) (fields : Fields) :
    fields.length < (spacedFields S level fields).length ∧
      ∀ f ∈ fields, (spaced S (level + 1) f.2).length < (spacedFields S level fields).length := by
  induction fields with
  | nil => simp [spacedFields]
  | cons field fields ih =>
    obtain ⟨hcount, hlength⟩ := ih
    simp only [spacedFields, List.length_cons, List.length_append, List.forall_mem_cons]
    refine ⟨by omega, by omega, fun f hf => ?_⟩
    have := hlength f hf
    omega

theorem length_le_spaced_array (S : Spacing) (level : Nat) (items : List Json) :
    items.length ≤ (spaced S level (.array items)).length ∧
      ∀ item ∈ items,
        (spaced S (level + 1) item).length ≤ (spaced S level (.array items)).length := by
  cases items with
  | nil => simp
  | cons item items =>
    have hlength : (spaced S level (.array (item :: items))).length =
        (spacedItems S level (item :: items)).length := by
      rw [spaced, spacedItems]
      rfl
    obtain ⟨hcount, hitems⟩ := length_lt_spacedItems S level (item :: items)
    rw [hlength]
    exact ⟨Nat.le_of_lt hcount, fun i hi => Nat.le_of_lt (hitems i hi)⟩

theorem length_le_spaced_object (S : Spacing) (level : Nat) (fields : Fields) :
    fields.length ≤ (spaced S level (.object fields)).length ∧
      ∀ f ∈ fields,
        (spaced S (level + 1) f.2).length ≤ (spaced S level (.object fields)).length := by
  cases fields with
  | nil => simp
  | cons field fields =>
    obtain ⟨key, value⟩ := field
    have hlength : (spaced S level (.object ((key, value) :: fields))).length =
        (spacedFields S level ((key, value) :: fields)).length := by
      rw [spaced, spacedFields]
      rfl
    obtain ⟨hcount, hfields⟩ :=
      length_lt_spacedFields S level ((key, value) :: fields)
    rw [hlength]
    exact ⟨Nat.le_of_lt hcount, fun f hf => Nat.le_of_lt (hfields f hf)⟩

theorem value?_array {items : List Json}
    (hread : ∀ i ∈ items, Reads S (level + 1) (value? .kept fuel depth) i)
    (hfuel : items.length ≤ fuel) :
    value? .kept fuel (depth + 1) (spaced S level (.array items) ++ rest) =
      some (.array items, rest) := by
  obtain ⟨cs, hcs, harray⟩ := array?_spaced rest hread hfuel
  rw [hcs, value?, harray]
  rfl

/-- Of two fields with one key the later counts. -/
theorem value?_object {fields : Fields}
    (hread : ∀ f ∈ fields, Reads S (level + 1) (value? .kept fuel depth) f.2)
    (hfuel : fields.length ≤ fuel) :
    value? .kept fuel (depth + 1) (spaced S level (.object fields) ++ rest) =
      some (.object (Fields.ofList fields), rest) := by
  obtain ⟨cs, hcs, hobject⟩ := object?_spaced (fun _ => value? .kept fuel depth) rest hread hfuel
  rw [hcs, value?, hobject]
  rfl

/-- **A value is read back.** Its numbers have to be read back, the fields of its objects to be
ascending, and the reader has to follow as many arrays and objects inside one another. -/
theorem value?_spaced {j : Json} (hordered : j.Ordered) (hnumbers : j.Numbers Number.ReadsBack)
    (hdepth : j.depth ≤ depth) (hfuel : (spaced S level j).length ≤ fuel)
    (hrest : NumberEnds rest) :
    value? .kept fuel depth (spaced S level j ++ rest) = some (j, rest) := by
  induction j using Json.induction generalizing level depth rest with
  | null => cases depth <;> rfl
  | bool b => cases depth <;> cases b <;> rfl
  | number n => exact value?_number (numbers_number_iff.mp hnumbers) hrest
  | text s => exact value?_text s
  | array items ih =>
    have hitems := ordered_array_iff.mp hordered
    have hnumbers := numbers_array_iff.mp hnumbers
    obtain ⟨depth, rfl⟩ : ∃ k, depth = k + 1 := ⟨depth - 1, by rw [Json.depth] at hdepth; omega⟩
    obtain ⟨hcount, hlength⟩ := length_le_spaced_array S level items
    have hread : ∀ i ∈ items, Reads S (level + 1) (value? .kept fuel depth) i := by
      intro i hi
      have hle := depth_le_depthItems hi
      rw [Json.depth] at hdepth
      exact ⟨hnumbers i hi, fun rest hrest =>
        ih i hi (hitems i hi) (hnumbers i hi) (by omega) (Nat.le_trans (hlength i hi) hfuel) hrest⟩
    exact value?_array hread (Nat.le_trans hcount hfuel)
  | object fields ih =>
    obtain ⟨hkeys, hfields⟩ := ordered_object_iff.mp hordered
    have hnumbers := numbers_object_iff.mp hnumbers
    obtain ⟨depth, rfl⟩ : ∃ k, depth = k + 1 := ⟨depth - 1, by rw [Json.depth] at hdepth; omega⟩
    obtain ⟨hcount, hlength⟩ := length_le_spaced_object S level fields
    have hread : ∀ f ∈ fields, Reads S (level + 1) (value? .kept fuel depth) f.2 := by
      intro f hf
      have hle := depth_le_depthFields hf
      rw [Json.depth] at hdepth
      exact ⟨hnumbers f hf, fun rest hrest =>
        ih f hf (hfields f hf) (hnumbers f hf) (by omega) (Nat.le_trans (hlength f hf) hfuel)
          hrest⟩
    rw [value?_object hread (Nat.le_trans hcount hfuel), Fields.ofList_of_ascending hkeys]

end Reader

/-! ## Whole texts -/

/-- The value that a text spells, for a reader that follows so many arrays and objects inside one
another. -/
def readWithin? (depth : Nat) (s : String) : Option Json :=
  (Reader.value? .kept s.length depth (Reader.skipSpace s.toList)).bind Reader.atEnd

theorem read?_eq_readWithin? (s : String) : read? s = readWithin? Reader.greatestDepth s := rfl

section Whole

variable {depth : Nat} {j : Json}

open Reader

/-- What the reader of values makes of a whole text, up to the blanks behind it. -/
theorem readWithin?_of_value? {S : Spacing} {level : Nat} {value : Json} {blanks : List Char}
    (hblanks : ∀ c ∈ blanks, isSpace c = true) (hnumbers : j.Numbers Number.ReadsBack)
    (hread : ∀ fuel, (spaced S level j).length ≤ fuel → NumberEnds blanks →
      value? .kept fuel depth (spaced S level j ++ blanks) = some (value, blanks)) :
    readWithin? depth (String.ofList (spaced S level j ++ blanks)) = some value := by
  have hends : NumberEnds blanks := by
    cases blanks with
    | nil => simp [NumberEnds]
    | cons c blanks => exact numberEnds_cons (by simp [endsNumber, hblanks c List.mem_cons_self])
  have hlength :
      (spaced S level j).length ≤ (String.ofList (spaced S level j ++ blanks)).length := by
    simp
  have hskip : skipSpace (spaced S level j ++ blanks) = spaced S level j ++ blanks :=
    skipSpace_spaced (List.forall_mem_nil _) hnumbers
  have hleft : skipSpace blanks = [] := by
    have hdropped : skipSpace (blanks ++ []) = skipSpace [] := skipSpace_append hblanks
    rwa [List.append_nil] at hdropped
  rw [readWithin?, String.toList_ofList, hskip, hread _ hlength hends]
  simp [atEnd, hleft]

/-- A value with blanks behind it is read back from its text. -/
theorem readWithin?_spaced (S : Spacing) (level : Nat) {blanks : List Char}
    (hblanks : ∀ c ∈ blanks, isSpace c = true) (hordered : j.Ordered)
    (hnumbers : j.Numbers Number.ReadsBack) (hdepth : j.depth ≤ depth) :
    readWithin? depth (String.ofList (spaced S level j ++ blanks)) = some j :=
  readWithin?_of_value? hblanks hnumbers fun _ hfuel hends =>
    value?_spaced hordered hnumbers hdepth hfuel hends

theorem readWithin?_compact (hordered : j.Ordered) (hnumbers : j.Numbers Number.ReadsBack)
    (hdepth : j.depth ≤ depth) : readWithin? depth j.compact = some j := by
  have hread := readWithin?_spaced .compact 0 (List.forall_mem_nil _) hordered hnumbers hdepth
  rwa [List.append_nil, spaced_compact] at hread

theorem readWithin?_pretty {blanks : List Char} (hblanks : ∀ c ∈ blanks, isSpace c = true)
    (hordered : j.Ordered) (hnumbers : j.Numbers Number.ReadsBack) (hdepth : j.depth ≤ depth) :
    readWithin? depth (j.pretty ++ String.ofList blanks) = some j := by
  have hread := readWithin?_spaced .pretty 0 hblanks hordered hnumbers hdepth
  rwa [spaced_pretty, String.ofList_append] at hread

end Whole

end DocSearch.Json
