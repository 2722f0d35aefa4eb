/-!
# Finite binary floating-point numbers

A finite number of the 64-bit binary format is a sign and a *rank*: magnitudes are counted upwards
from zero. The rank is the bit pattern without its sign bit, so every rank below `ranks` is one
magnitude and no magnitude has two ranks.

* `units` gives the magnitude of a rank as a whole number of smallest steps `2^-1074`; it is
  strictly increasing.
* `nearest?` gives the rank nearest to a quotient of natural numbers, a half going to the even
  rank, and fails beyond the largest finite magnitude.
-/

namespace DocSearch.Decimal

/-- The number of finite magnitudes. -/
def ranks : Nat := 0x7FF0000000000000

/-- A finite floating-point number. -/
structure Binary64 where
  negative : Bool
  rank : Fin ranks
  deriving DecidableEq

namespace Binary64

/-- The value of the leading binary digit of a significand, `2^52`. -/
def leadingBit : Nat := 4503599627370496

/-- The magnitude of rank `r`, counted in steps of `2^-1074`. A rank is written in base `2^52`: its
first digit says how often the step has doubled, once the first doubling is free. -/
def units (r : Nat) : Nat :=
  if r / leadingBit = 0 then r else (leadingBit + r % leadingBit) <<< (r / leadingBit - 1)

/-- The whole number nearest to `num / den`, a half going to the even neighbour. -/
def roundHalfEven (num den : Nat) : Nat :=
  let quotient := num / den
  let rest := num % den
  if 2 * rest < den ∨ (2 * rest = den ∧ quotient % 2 = 0) then quotient else quotient + 1

/-- The rank nearest to `num / den`, before the range is checked. The step is the smallest one that
leaves at most 53 binary digits; a carry into a fifty-fourth lands on the next doubling. -/
def nearest (num den : Nat) : Nat :=
  let scaled := num <<< 1074
  let doublings := (scaled / den).log2 - 52
  doublings * leadingBit + roundHalfEven scaled (den <<< doublings)

/-- The rank nearest to `num / den`, if that is a finite magnitude. -/
def nearest? (num den : Nat) : Option (Fin ranks) :=
  if h : nearest num den < ranks then some ⟨nearest num den, h⟩ else none

/-- The rounded product of two magnitudes. -/
def mul? (a b : Fin ranks) : Option (Fin ranks) :=
  nearest? (units a * units b) (1 <<< 2148)

/-- The rounded quotient of two magnitudes. -/
def div? (a b : Fin ranks) : Option (Fin ranks) :=
  nearest? (units a) (units b)

def tenTo (k : Nat) : Nat := Nat.pow 10 k

def zero : Fin ranks := ⟨0, by decide⟩

/-- Equality as numbers: the two zeros agree, all else agrees only with itself. -/
def agrees (a b : Binary64) : Bool :=
  a.rank == b.rank && (a.negative == b.negative || a.rank == zero)

end Binary64

end DocSearch.Decimal
