import DocSearch.Decimal.Literal
import DocSearch.Decimal.Shortest

/-!
# JSON numbers

A JSON number is of one of three kinds, which are never equal to one another: a natural number below
`2^64`, a negative integer from `-2^63`, and a finite floating-point number. A literal without a point
and without an exponent that fits one of the first two is of that kind; every other literal, `-0`
among them, is a floating-point number.
-/

namespace DocSearch.Json

open Decimal

/-- How many negative integers are numbers, `2^63`. -/
def negatives : Nat := 9223372036854775808

inductive Number where
  | natural (value : UInt64)
  /-- The integer `-(k + 1)`. -/
  | negative (k : Fin negatives)
  | float (value : Binary64)
  deriving DecidableEq

namespace Number

/-- The layout of floating-point numbers: positional for leading digits from `10^-5` to `10^15`, and
otherwise with a signed exponent. -/
def layout : Layout := ⟨-5, 15, ['+']⟩

/-- The number that a literal spells, unless it is out of range. -/
def ofLiteral? (literal : Literal) : Option Number :=
  let n := literal.wholeNumber
  let float := literal.toBinary64?.map Number.float
  if literal.isWhole then
    if literal.negative then
      if h : 1 ≤ n ∧ n ≤ negatives then some (.negative ⟨n - 1, by omega⟩) else float
    else if n < UInt64.size then some (.natural (UInt64.ofNat n))
    else float
  else float

def text : Number → List Char
  | natural value => digitsOf value.toNat
  | negative k => '-' :: digitsOf (k + 1)
  | float value => layout.text value

/-- The floating-point number nearest to a number. -/
def toBinary64? : Number → Option Binary64
  | natural value => (Binary64.nearest? value.toNat 1).map (⟨false, ·⟩)
  | negative k => (Binary64.nearest? (k + 1) 1).map (⟨true, ·⟩)
  | float value => some value

/-- Equality as numbers of one kind; the two floating-point zeros agree. -/
def agrees : Number → Number → Bool
  | float a, float b => a.agrees b
  | a, b => a == b

end Number

end DocSearch.Json
