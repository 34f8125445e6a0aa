import SmallWorld.Euclidean
import SmallWorld.Source.Congruential

/-!
# Regular vectors

Vectors that follow a rule: components from the congruential generator,
scattered points in the plane, and the points of a grid.
-/

namespace SmallWorld.Pattern

/-- The quotient of two counts below `2 ^ 64`, as a scalar. -/
def quotient (numerator denominator : Nat) : Scalar :=
  .ofFloat (numerator.toUInt64.toFloat / denominator.toUInt64.toFloat)

/-- A number in `[0, 1)` stretched over `[-1, 1)`. -/
def symmetric (value : Float) : Scalar :=
  let two : Float := .ofBits 0x4000000000000000
  let one : Float := .ofBits 0x3ff0000000000000
  .ofFloat (value * two - one)

/-- Vectors with components in `[-1, 1)` from the congruential generator. -/
def congruential (dimension : Nat) : Nat → Congruential → List Coordinates
  | 0, _ => []
  | count + 1, generator =>
      let (values, generator) := UniformSource.draws dimension generator
      values.map symmetric :: congruential dimension count generator

def scatteredVector (position : Nat) : Coordinates :=
  [quotient (position * 37 % 101) 101, quotient ((position * 59 + 13) % 97) 97]

def scattered (count : Nat) : List Coordinates :=
  (List.range count).map scatteredVector

/-- The lowest `dimension` digits of a number to the base `side`, lowest
first. -/
def digits (side : Nat) : (dimension : Nat) → Nat → List Nat
  | 0, _ => []
  | dimension + 1, number =>
      number % side :: digits side dimension (number / side)

/-- Points of a grid with `side` points along each axis, every `step`-th one
in the order in which the first coordinate runs fastest. -/
def grid (count dimension side step : Nat) : List Coordinates :=
  (List.range count).map fun position =>
    (digits side dimension (position * step)).map Scalar.ofCount

end SmallWorld.Pattern
