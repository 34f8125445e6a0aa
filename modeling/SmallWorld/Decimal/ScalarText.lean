import SmallWorld.Scalar
import SmallWorld.Decimal.Shortest

/-!
# The text of a scalar

Messages show a scalar by the fewest digits that are read back as it, either
with every digit at its place or with an exponent.
-/

namespace SmallWorld.Scalar

/-- The decimal with the fewest digits for a finite scalar other than zero,
its sign put aside. -/
def shortestDecimal (value : Scalar) : Decimal :=
  let bits : Nat := value.bits.toNat
  let fraction : Nat := bits % 0x800000
  let biased : Nat := bits / 0x800000 % 256
  if biased = 0 then
    Decimal.shortest fraction (-149) false
  else
    let exponent : Int := Int.ofNat biased - 150
    Decimal.shortest (0x800000 + fraction) exponent
      (fraction == 0 && decide (1 < biased))

/-- The text of a scalar whose digits are laid out by `layout` and whose zero
is written `zeroText`. -/
private def textWith (layout : Decimal → String) (zeroText : String)
    (value : Scalar) : String :=
  if value.isNaN then
    "NaN"
  else
    let sign := if value.bits.toNat < 0x80000000 then "" else "-"
    if value.isInf then
      sign ++ "inf"
    else if value.bits.toNat % 0x80000000 = 0 then
      sign ++ zeroText
    else
      sign ++ layout value.shortestDecimal

/-- The text of a scalar without an exponent, such as `0.25` or `-3`. -/
def plain (value : Scalar) : String :=
  textWith Decimal.positional "0" value

/-- The text of a scalar with an exponent, such as `2.5e-1`. -/
def scientific (value : Scalar) : String :=
  textWith Decimal.scientific "0e0" value

end SmallWorld.Scalar
