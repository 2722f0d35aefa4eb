import DocSearch.Decimal.Binary64

/-!
# Decimal literals

A literal is a sign, the digits before the point, the digits after it and perhaps an exponent of
ten. Its floating-point value is found in two rounded steps: the leading digits are collected into a
significand of 64 bits, and that is scaled by a power of ten. A literal that is long, or far from
one, may therefore miss the nearest number by a last digit.
-/

namespace DocSearch.Decimal

/-- A decimal literal, digit by digit. -/
structure Literal where
  negative : Bool
  whole : List Nat
  fraction : List Nat
  exponent : Option Int
  deriving DecidableEq

/-- Appends digits to a significand while it stays below `2 ^ 64`, and counts those that are left from
the first one that does not fit. -/
def absorb (significand : Nat) : List Nat → Nat × Nat
  | [] => (significand, 0)
  | digit :: rest =>
    if significand * 10 + digit < UInt64.size then absorb (significand * 10 + digit) rest
    else (significand, rest.length + 1)

def powerOfTen? (k : Nat) : Option (Fin ranks) := Binary64.nearest? (Binary64.tenTo k) 1

/-- The largest power of ten that one step scales by. -/
def greatestPower : Nat := 308

/-- Divides a magnitude by `10 ^ k`, in steps of at most `10 ^ 308`, until it vanishes. -/
def scaleDown? (magnitude : Fin ranks) (k : Nat) : Option (Fin ranks) :=
  if _near : k ≤ greatestPower then do Binary64.div? magnitude (← powerOfTen? k)
  else if magnitude = Binary64.zero then some magnitude
  else do
    scaleDown? (← Binary64.div? magnitude (← powerOfTen? greatestPower)) (k - greatestPower)
termination_by k
decreasing_by all_goals simp only [greatestPower] at *; omega

/-- Multiplies a magnitude by `10 ^ k`; only zero can be scaled beyond the largest power. -/
def scaleUp? (magnitude : Fin ranks) (k : Nat) : Option (Fin ranks) :=
  if k ≤ greatestPower then do Binary64.mul? magnitude (← powerOfTen? k)
  else if magnitude = Binary64.zero then some magnitude
  else none

/-- `significand * 10 ^ exponent`, each step rounded. -/
def scaled? (significand : Nat) (exponent : Int) : Option (Fin ranks) := do
  let magnitude ← Binary64.nearest? significand 1
  if 0 ≤ exponent then scaleUp? magnitude exponent.toNat
  else scaleDown? magnitude (-exponent).toNat

namespace Literal

/-- The significand and the exponent of ten that stand for the literal's magnitude. -/
def parts (literal : Literal) : Nat × Int :=
  let (wholePart, dropped) := absorb 0 literal.whole
  let (significand, ignored) := absorb wholePart literal.fraction
  (significand, dropped - (literal.fraction.length - ignored : Nat) + literal.exponent.getD 0)

/-- The floating-point value, unless it is out of range. -/
def toBinary64? (literal : Literal) : Option Binary64 :=
  let (significand, exponent) := literal.parts
  (scaled? significand exponent).map fun rank => ⟨literal.negative, rank⟩

/-- Whether the literal has neither a point nor an exponent. -/
def isWhole (literal : Literal) : Bool := literal.fraction.isEmpty && literal.exponent.isNone

/-- The natural number that the digits before the point spell. -/
def wholeNumber (literal : Literal) : Nat := literal.whole.foldl (fun n d => n * 10 + d) 0

end Literal

end DocSearch.Decimal
