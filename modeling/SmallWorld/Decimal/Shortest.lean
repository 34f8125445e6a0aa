/-!
# Shortest decimals

A positive number `mantissa * 2 ^ exponent` of a binary format is read back
from every decimal that lies nearer to it than to its neighbours in the
format.  `Decimal.shortest` finds the decimal with the fewest digits among
them and, of those, the one nearest to the number.

The search runs over the grids of multiples of `10 ^ power`, coarsest grid
first.  On each grid only the two points next to the number need a look: when
any point of the grid reads back, so does one of these two.
-/

namespace SmallWorld

/-- The positive decimal number `digits * 10 ^ power`. -/
structure Decimal where
  digits : Nat
  power : Int
  deriving DecidableEq, Repr

namespace Decimal

/-- A positive number and the interval of numbers that are read back as it.
All three are given in quarters of the number's last binary place, and the
unit of measure is `numerator / denominator`. -/
structure Interval where
  low : Nat
  middle : Nat
  high : Nat
  closed : Bool
  numerator : Nat
  denominator : Nat

namespace Interval

/-- The numbers read back as `mantissa * 2 ^ exponent`.  The distance to the
neighbour below is halved when `narrow` says that the mantissa is the least
one of its exponent.  The ends of the interval belong to it when the mantissa
is even, since ties are read as the even one. -/
def around (mantissa : Nat) (exponent : Int) (narrow : Bool) : Interval where
  low := 4 * mantissa - if narrow then 1 else 2
  middle := 4 * mantissa
  high := 4 * mantissa + 2
  closed := mantissa % 2 = 0
  numerator := Nat.pow 2 (exponent - 2).toNat
  denominator := Nat.pow 2 (2 - exponent).toNat

/-- The value of one point of a grid in the measure of the interval, as a
numerator; the matching denominator scales the three numbers instead. -/
private def gridScales (interval : Interval) (power : Int) : Nat × Nat :=
  (interval.denominator * Nat.pow 10 power.toNat,
    interval.numerator * Nat.pow 10 (-power).toNat)

/-- Whether the multiple `count` of `10 ^ power` is read back as the
number. -/
def holds (interval : Interval) (power : Int) (count : Nat) : Bool :=
  let (gridScale, scale) := interval.gridScales power
  let point := count * gridScale
  if interval.closed then
    interval.low * scale ≤ point && point ≤ interval.high * scale
  else
    interval.low * scale < point && point < interval.high * scale

/-- The point of the grid `10 ^ power` that is read back as the number.  Of
two such points the nearer one is taken, and the upper one of two that are
equally near. -/
def onGrid? (interval : Interval) (power : Int) : Option Decimal :=
  let (gridScale, scale) := interval.gridScales power
  let number := interval.middle * scale
  let below := number / gridScale
  let above := below + 1
  let belowHolds := 0 < below && interval.holds power below
  let aboveHolds := interval.holds power above
  let aboveNearer :=
    above * gridScale - number ≤ number - below * gridScale
  if aboveHolds && (aboveNearer || !belowHolds) then
    some { digits := above, power }
  else if belowHolds then
    some { digits := below, power }
  else
    none

end Interval

/-- The grids on which the decimals of binary32 numbers lie, as powers of ten
from the coarsest to the finest: every such number is below `10 ^ 39`, and
`10 ^ (-45)` is read back as the least of them. -/
def gridPowers : List Int :=
  (List.range 85).map fun (step : Nat) => 39 - Int.ofNat step

/-- The decimal with the fewest digits that is read back as the positive
binary32 number `mantissa * 2 ^ exponent`: the one on the coarsest grid that
has any. -/
def shortest (mantissa : Nat) (exponent : Int) (narrow : Bool) : Decimal :=
  let interval := Interval.around mantissa exponent narrow
  (gridPowers.findSome? interval.onGrid?).getD { digits := 0, power := 0 }

/-- The digits of the decimal as characters, most significant first. -/
def characters (decimal : Decimal) : List Char :=
  Nat.toDigits 10 decimal.digits

/-- The decimal without an exponent: every digit stands at its place, and the
point is written only before a fraction. -/
def positional (decimal : Decimal) : String :=
  let digits := decimal.characters
  if 0 ≤ decimal.power then
    String.ofList (digits ++ List.replicate decimal.power.toNat '0')
  else
    let places := (-decimal.power).toNat
    if places < digits.length then
      let whole := digits.take (digits.length - places)
      let fraction := digits.drop (digits.length - places)
      String.ofList (whole ++ '.' :: fraction)
    else
      String.ofList
        ('0' :: '.' :: List.replicate (places - digits.length) '0' ++ digits)

/-- The decimal with one digit before the point and an exponent after the
letter `e`. -/
def scientific (decimal : Decimal) : String :=
  let digits := decimal.characters
  let exponent := decimal.power + (digits.length - 1 : Nat)
  let significand :=
    match digits with
    | [] => []
    | [digit] => [digit]
    | digit :: fraction => digit :: '.' :: fraction
  String.ofList significand ++ "e" ++ toString exponent

end Decimal

end SmallWorld
