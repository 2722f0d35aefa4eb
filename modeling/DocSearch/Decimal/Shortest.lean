import DocSearch.Decimal.Binary64

/-!
# The shortest decimal text of a floating-point number

`shortest r` is the decimal with the fewest digits that reads back as the magnitude of rank `r`;
of two with as few digits it is the nearer one, and an exact tie goes to the even digit.
`Layout.text` writes it: positionally while its leading digit stands within the layout's range of
places, in scientific form otherwise.
-/

namespace DocSearch.Decimal

open Binary64

/-- The positive decimal `digits * 10 ^ place`. -/
structure Positional where
  digits : Nat
  place : Int
  deriving DecidableEq

/-- The place of the leading digit of the magnitude of rank `r`, which is not zero: the greatest `e`
with `10 ^ e ≤ units r / 2 ^ 1074`. -/
def leadingPlace (r : Nat) : Int :=
  ((Nat.toDigits 10 ((units r * tenTo 330) >>> 1074)).length : Int) - 331

/-- Whether `c` grid cells fall into the interval of values that round to rank `r`: it reaches half way
to either neighbour, its ends included exactly when `r` is even. All numbers are counted in halves of a
step, `scale` times. -/
def roundsTo (r scale cell c : Nat) : Bool :=
  let low := (units (r - 1) + units r) * scale
  let high := (units r + units (r + 1)) * scale
  if r % 2 = 0 then low ≤ c * cell && c * cell ≤ high else low < c * cell && c * cell < high

/-- The multiple of `10 ^ place` that reads back as rank `r`, if there is one: one of the two
neighbours of the value on that grid, and the nearer of them when both do. -/
def onGrid? (r : Nat) (place : Int) : Option Nat :=
  let scale := tenTo (-place).toNat
  let cell := tenTo place.toNat <<< 1075
  let value := 2 * units r * scale
  let below := value / cell
  let above := below + 1
  match roundsTo r scale cell below, roundsTo r scale cell above with
  | true, true =>
    let down := value - below * cell
    let up := above * cell - value
    if down < up ∨ (down = up ∧ below % 2 = 0) then some below else some above
  | true, false => some below
  | false, true => some above
  | false, false => none

/-- Moves the zeros at the end of `digits` into the place. -/
def dropZeros (digits : Nat) (place : Int) : Positional :=
  if h : digits % 10 = 0 ∧ digits ≠ 0 then dropZeros (digits / 10) (place + 1) else ⟨digits, place⟩
termination_by digits
decreasing_by omega

/-- The shortest decimal that reads back as rank `r`, which is not zero. Seventeen digits always
suffice. -/
def shortest (r : Nat) : Positional :=
  let lead := leadingPlace r
  let attempt (n : Nat) : Option Positional :=
    let place := lead - n
    (onGrid? r place).map (dropZeros · place)
  ((List.range 17).findSome? attempt).getD ⟨units r, -1074⟩

/-- How a decimal is laid out as text. -/
structure Layout where
  /-- The lowest place of a leading digit that is written positionally. -/
  lowest : Int
  /-- The highest such place. -/
  highest : Int
  /-- What stands before the exponent of a large number. -/
  positiveSign : List Char

def digitsOf (n : Nat) : List Char := Nat.toDigits 10 n

/-- Positional text with at least one digit on either side of the point. -/
def positionalText (digits : List Char) (place lead : Int) : List Char :=
  if 0 ≤ place then digits ++ List.replicate place.toNat '0' ++ ['.', '0']
  else if 0 ≤ lead then
    digits.take (lead.toNat + 1) ++ '.' :: digits.drop (lead.toNat + 1)
  else '0' :: '.' :: (List.replicate (-lead - 1).toNat '0' ++ digits)

/-- Scientific text; the point appears only between two digits. -/
def scientificText (positiveSign digits : List Char) (lead : Int) : List Char :=
  let fraction := if digits.length ≤ 1 then [] else '.' :: digits.drop 1
  let sign := if lead < 0 then ['-'] else positiveSign
  digits.take 1 ++ fraction ++ 'e' :: (sign ++ digitsOf lead.natAbs)

/-- The text of a positive decimal. -/
def Layout.positive (layout : Layout) (d : Positional) : List Char :=
  let digits := digitsOf d.digits
  let lead := d.place + digits.length - 1
  if layout.lowest ≤ lead ∧ lead ≤ layout.highest then positionalText digits d.place lead
  else scientificText layout.positiveSign digits lead

/-- The text of a number. Zero keeps its sign. -/
def Layout.text (layout : Layout) (x : Binary64) : List Char :=
  let magnitude :=
    if x.rank = zero then ['0', '.', '0'] else layout.positive (shortest x.rank)
  if x.negative then '-' :: magnitude else magnitude

end DocSearch.Decimal
