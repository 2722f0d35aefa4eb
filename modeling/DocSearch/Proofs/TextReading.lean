import DocSearch.Json.Printer
import DocSearch.Json.Reader
import Mathlib.Tactic.Common

/-!
# Reading texts and numbers back

What is written for a text or for a number is read back as what it was, and what stands behind it
is left. A text ends with its quote. A number ends where no character of a number is ahead.

* `text?_quoted`: a quoted text is read back.
* `Number.readsBack_of_isWhole`: so is every number that is not a floating-point number.
-/

namespace DocSearch.Json

namespace Reader

open Decimal

variable {cs rest left : List Char}

/-! ## Texts -/

theorem hex?_hexDigit : ∀ n < 16, hex? (hexDigit n) = some n := by
  decide

theorem hex4?_hexDigits {n : Nat} (h : n < 0x20) :
    hex4? '0' '0' (hexDigit (n / 16)) (hexDigit (n % 16)) = some n := by
  have hzero : hex? '0' = some 0 := rfl
  have hhigh := hex?_hexDigit (n / 16) (by omega)
  have hlow := hex?_hexDigit (n % 16) (by omega)
  simp only [hex4?, hzero, hhigh, hlow, bind, Option.bind]
  congr 1
  omega

/-- Puts a code unit before those that are read. -/
def unitBefore (unit : Nat) : List Nat × List Char → List Nat × List Char
  | (units, left) => (unit :: units, left)

theorem units?_plain {c : Char} (hquote : c ≠ '"') (hslash : c ≠ '\\') (h : ¬ c.toNat < 0x20) :
    units? (c :: cs) = (units? cs).map (unitBefore c.toNat) := by
  simp only [units?, hslash, if_neg h, false_imp_iff, implies_true]
  cases units? cs <;> rfl

theorem units?_shortEscape {letter c : Char} (hletter : letter ≠ 'u')
    (h : shortEscape? letter = some c) :
    units? ('\\' :: letter :: cs) = (units? cs).map (unitBefore c.toNat) := by
  simp only [units?, hletter, h, false_imp_iff, implies_true]
  cases units? cs <;> rfl

/-- What a character is written as is read as its code. -/
theorem units?_escape (c : Char) (cs : List Char) :
    units? (escape c ++ cs) = (units? cs).map (unitBefore c.toNat) := by
  unfold escape
  split
  case h_8 =>
    rename_i hquote hslash _ _ _ _ _
    split
    · rename_i h
      have hhex := hex4?_hexDigits h
      simp only [List.cons_append, List.nil_append, units?, hhex]
      cases units? cs <;> rfl
    · rename_i h
      exact units?_plain hquote hslash h
  all_goals exact units?_shortEscape (by decide) rfl

theorem units?_escaped (cs rest : List Char) :
    units? (cs.flatMap escape ++ '"' :: rest) = some (cs.map Char.toNat, rest) := by
  induction cs with
  | nil => rfl
  | cons c cs ih =>
    rw [List.flatMap_cons, List.append_assoc, units?_escape, ih]
    rfl

theorem not_surrogate (c : Char) :
    isHighSurrogate c.toNat = false ∧ isLowSurrogate c.toNat = false := by
  have hvalid : c.toNat < 0xD800 ∨ (0xDFFF < c.toNat ∧ c.toNat < 0x110000) := c.valid
  simp only [isHighSurrogate, isLowSurrogate, Bool.and_eq_false_iff, decide_eq_false_iff_not]
  omega

theorem ofUnits?_map_toNat (cs : List Char) : ofUnits? (cs.map Char.toNat) = some cs := by
  induction cs with
  | nil => rfl
  | cons c cs ih =>
    obtain ⟨hhigh, hlow⟩ := not_surrogate c
    cases cs with
    | nil => simp [ofUnits?, hhigh, hlow]
    | cons d cs =>
      rw [List.map_cons] at ih
      simp [ofUnits?, hhigh, hlow, ih]

theorem text?_quoted (s : String) (rest : List Char) :
    text? .kept (s.toList.flatMap escape ++ '"' :: rest) = some (s, rest) := by
  simp [text?, units?_escaped, ofUnits?_map_toNat]

/-! ## Numbers -/

/-- No number goes on with what is ahead. -/
def NumberEnds (cs : List Char) : Prop :=
  ∀ c ∈ cs.head?, digit? c = none ∧ c ≠ '.' ∧ c ≠ 'e' ∧ c ≠ 'E'

/-- The value of a digit. -/
def digitValue (c : Char) : Nat := c.toNat - '0'.toNat

theorem digit?_of_isDigit {c : Char} (h : c.isDigit = true) : digit? c = some (digitValue c) := by
  have hrange : '0' ≤ c ∧ c ≤ '9' := by
    simpa [Char.isDigit, Char.le_def] using h
  rw [digit?, if_pos hrange]
  rfl

theorem digits_append {ds : List Char} (hds : ∀ c ∈ ds, c.isDigit = true)
    (hrest : NumberEnds rest) : digits (ds ++ rest) = (ds.map digitValue, rest) := by
  induction ds with
  | nil =>
    cases rest with
    | nil => rfl
    | cons c rest =>
      obtain ⟨hnone, -⟩ := hrest c rfl
      simp [digits, hnone]
  | cons d ds ih =>
    have hsome := digit?_of_isDigit (hds d List.mem_cons_self)
    have hmore := ih fun c hc => hds c (List.mem_cons_of_mem _ hc)
    simp [digits, hsome, hmore]

/-- The digits of a number do not begin with a zero, unless that is all. -/
theorem head_digitsOf {n : Nat} (h : n ≠ 0) : ∃ d ds, digitsOf n = d :: ds ∧ digitValue d ≠ 0 := by
  induction n using Nat.strongRecOn with
  | ind n ih =>
    by_cases hn : n < 10
    · refine ⟨n.digitChar, [], Nat.toDigits_of_lt_base hn, ?_⟩
      rw [digitValue, Nat.toNat_digitChar_of_lt_ten hn]
      have hzero : '0'.toNat = 48 := rfl
      omega
    · obtain ⟨d, ds, hds, hd⟩ := ih (n / 10) (by omega) (by omega)
      refine ⟨d, ds ++ [(n % 10).digitChar], ?_, hd⟩
      rw [digitsOf, Nat.toDigits_of_base_le (by omega) (by omega)]
      exact congrArg (· ++ _) hds

theorem isDigit_of_mem_digitsOf {n : Nat} : ∀ c ∈ digitsOf n, c.isDigit = true := fun _ hc =>
  Nat.isDigit_of_mem_toDigits (by omega) (by omega) hc

theorem wholeNumber_digitsOf (n : Nat) :
    ((digitsOf n).map digitValue).foldl (fun n d => n * 10 + d) 0 = n := by
  have hvalue : Nat.ofDigitChars 10 (digitsOf n) 0 = n :=
    Nat.ofDigitChars_toDigits (by omega) (by omega)
  rw [List.foldl_map]
  rw [Nat.ofDigitChars_eq_foldl] at hvalue
  simpa only [Nat.mul_comm, digitValue] using hvalue

theorem digits1?_digitsOf (n : Nat) (hrest : NumberEnds rest) :
    digits1? (digitsOf n ++ rest) = some ((digitsOf n).map digitValue, rest) := by
  rw [digits1?, digits_append isDigit_of_mem_digitsOf hrest]
  cases hds : digitsOf n with
  | nil => exact absurd hds Nat.toDigits_ne_nil
  | cons d ds => rfl

theorem whole?_digitsOf (n : Nat) (hrest : NumberEnds rest) :
    whole? (digitsOf n ++ rest) = some ((digitsOf n).map digitValue, rest) := by
  rw [whole?, digits1?_digitsOf n hrest]
  by_cases hn : n = 0
  · subst hn
    rfl
  · obtain ⟨d, ds, hds, hd⟩ := head_digitsOf hn
    rw [hds, List.map_cons]
    split
    · rename_i hzero
      simp only [Option.some.injEq, Prod.mk.injEq, List.cons.injEq] at hzero
      exact absurd hzero.1.1 hd
    · rfl

theorem unsigned?_digitsOf (negative : Bool) (n : Nat) (hrest : NumberEnds rest) :
    unsigned? negative (digitsOf n ++ rest) =
      some (⟨negative, (digitsOf n).map digitValue, [], none⟩, rest) := by
  have hfraction : fraction? rest = some ([], rest) := by
    unfold fraction?
    split
    · obtain ⟨-, hpoint, -⟩ := hrest '.' rfl
      exact absurd rfl hpoint
    · rfl
  have hexponent : exponent? rest = some (none, rest) := by
    unfold exponent?
    split
    · obtain ⟨-, -, he, -⟩ := hrest 'e' rfl
      exact absurd rfl he
    · obtain ⟨-, -, -, he⟩ := hrest 'E' rfl
      exact absurd rfl he
    · rfl
  simp only [unsigned?, whole?_digitsOf n hrest, hfraction, hexponent, bind, Option.bind]

theorem literal?_digitsOf (n : Nat) (hrest : NumberEnds rest) :
    literal? (digitsOf n ++ rest) =
      some (⟨false, (digitsOf n).map digitValue, [], none⟩, rest) := by
  rw [← unsigned?_digitsOf false n hrest]
  unfold literal?
  split
  · rename_i ahead hminus
    cases hds : digitsOf n with
    | nil => exact absurd hds Nat.toDigits_ne_nil
    | cons d ds =>
      rw [hds] at hminus
      obtain ⟨rfl, -⟩ := List.cons.inj hminus
      have hdigit := isDigit_of_mem_digitsOf (n := n) '-' (hds ▸ List.mem_cons_self)
      cases hdigit
  · rfl

/-- A number begins with its sign or with a digit. -/
theorem head_of_number? {care : Care} {n : Number} (h : number? care cs = some (n, left)) :
    ∃ c rest, cs = c :: rest ∧ (c = '-' ∨ (digit? c).isSome) := by
  have hliteral : ∃ read, literal? cs = some read := by
    cases hcs : literal? cs with
    | some read => exact ⟨read, rfl⟩
    | none => simp [number?, hcs] at h
  obtain ⟨read, hread⟩ := hliteral
  cases cs with
  | nil => simp [literal?, unsigned?, whole?, digits1?, digits] at hread
  | cons c rest =>
    refine ⟨c, rest, rfl, ?_⟩
    by_contra hnot
    obtain ⟨hsign, hdigit⟩ := not_or.mp hnot
    have hnone : digit? c = none := Option.not_isSome_iff_eq_none.mp hdigit
    simp [literal?, hsign, unsigned?, whole?, digits1?, digits, hnone] at hread

end Reader

namespace Number

open Decimal Reader

/-- The text of a number is read as that number. -/
def ReadsBack (n : Number) : Prop :=
  ∀ rest, NumberEnds rest → number? .kept (n.text ++ rest) = some (n, rest)

/-- The number is of one of the two kinds that are whole. -/
def IsWhole : Number → Prop
  | natural _ | negative _ => True
  | float _ => False

theorem readsBack_natural (value : UInt64) : (natural value).ReadsBack := by
  intro rest hrest
  have hliteral := literal?_digitsOf value.toNat hrest
  have hnumber : ofLiteral? ⟨false, (digitsOf value.toNat).map digitValue, [], none⟩ =
      some (natural value) := by
    have hlt : value.toNat < UInt64.size := value.toNat_lt
    simp [ofLiteral?, Literal.isWhole, Literal.wholeNumber, wholeNumber_digitsOf, hlt]
  simp [number?, text, hliteral, hnumber]

theorem readsBack_negative (k : Fin negatives) : (negative k).ReadsBack := by
  intro rest hrest
  have hliteral : literal? ('-' :: (digitsOf (k + 1) ++ rest)) =
      some (⟨true, (digitsOf (k + 1)).map digitValue, [], none⟩, rest) :=
    unsigned?_digitsOf true (k + 1) hrest
  have hnumber : ofLiteral? ⟨true, (digitsOf (k + 1)).map digitValue, [], none⟩ =
      some (negative k) := by
    have hle : 1 ≤ (k : Nat) + 1 ∧ (k : Nat) + 1 ≤ negatives := ⟨by omega, k.isLt⟩
    simp [ofLiteral?, Literal.isWhole, Literal.wholeNumber, wholeNumber_digitsOf, hle]
  simp [number?, text, hliteral, hnumber]

theorem readsBack_of_isWhole {n : Number} (h : n.IsWhole) : n.ReadsBack := by
  cases n with
  | natural value => exact readsBack_natural value
  | negative k => exact readsBack_negative k
  | float value => exact h.elim

end Number

end DocSearch.Json
