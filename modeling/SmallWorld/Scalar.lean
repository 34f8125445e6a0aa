/-!
# Scalars

Components and distances are IEEE binary32 numbers, kept as their bits.
Arithmetic and the comparisons `<` and `≤` are those of the numbers: zeros of
either sign are equal, and a NaN compares with nothing.  The bits tell NaNs
apart as well, by sign and payload.  That shows where a list has to be
sorted: the total order `Scalar.rank` refines `<`, puts `-0` before `+0`, the
NaNs with a negative sign first and those with a positive sign last.
-/

namespace SmallWorld

/-- A component of a vector, or a distance between two vectors. -/
structure Scalar where
  ofBits ::
  /-- The sign, the exponent and the mantissa, from the highest bit down. -/
  bits : UInt32
  deriving DecidableEq

namespace Scalar

/-- The zero with a negative sign, the neutral element of addition. -/
def negativeZero : Scalar := .ofBits 0x80000000

def zero : Scalar := .ofBits 0x00000000

def one : Scalar := .ofBits 0x3f800000

def infinity : Scalar := .ofBits 0x7f800000

def greatest : Scalar := .ofBits 0x7f7fffff

/-- The NaN of an operation that has no result, such as the difference of two
infinities of the same sign. -/
def undefined : Scalar := .ofBits 0xffc00000

/-- The number that a scalar stands for.  All NaNs stand for the same one. -/
def value (scalar : Scalar) : Float32 := .ofBits scalar.bits

def isNaN (scalar : Scalar) : Bool := scalar.value.isNaN

def isFinite (scalar : Scalar) : Bool := scalar.value.isFinite

def isInf (scalar : Scalar) : Bool := scalar.value.isInf

def abs (scalar : Scalar) : Scalar := .ofBits (scalar.bits &&& 0x7fffffff)

/-- A NaN with the mark of the quiet ones: the highest bit of its payload. -/
def quiet (scalar : Scalar) : Scalar := .ofBits (scalar.bits ||| 0x00400000)

/-- The NaN in which an operation ends: its first operand that is a NaN, made
quiet, or the undefined result if it has none. -/
def nanOf (left right : Scalar) : Scalar :=
  if left.isNaN then
    left.quiet
  else if right.isNaN then
    right.quiet
  else
    undefined

/-- The scalar of a computed number, where `nan` takes the place of the
NaN. -/
@[inline]
def ofNumber (number : Float32) (nan : Scalar) : Scalar :=
  if number.isNaN then nan else .ofBits number.toBits

def add (left right : Scalar) : Scalar :=
  ofNumber (left.value + right.value) (nanOf left right)

def sub (left right : Scalar) : Scalar :=
  ofNumber (left.value - right.value) (nanOf left right)

def mul (left right : Scalar) : Scalar :=
  ofNumber (left.value * right.value) (nanOf left right)

def div (left right : Scalar) : Scalar :=
  ofNumber (left.value / right.value) (nanOf left right)

instance : Add Scalar where
  add := add

instance : Sub Scalar where
  sub := sub

instance : Mul Scalar where
  mul := mul

instance : Div Scalar where
  div := div

def sqrt (scalar : Scalar) : Scalar :=
  ofNumber scalar.value.sqrt (nanOf scalar scalar)

def log (scalar : Scalar) : Scalar :=
  ofNumber scalar.value.log (nanOf scalar scalar)

def cos (scalar : Scalar) : Scalar :=
  ofNumber scalar.value.cos (nanOf scalar scalar)

instance : LT Scalar where
  lt left right := left.value < right.value

instance : LE Scalar where
  le left right := left.value ≤ right.value

instance (left right : Scalar) : Decidable (left < right) :=
  inferInstanceAs (Decidable (left.value < right.value))

instance (left right : Scalar) : Decidable (left ≤ right) :=
  inferInstanceAs (Decidable (left.value ≤ right.value))

/-- The scalar nearest to a count below `2 ^ 64`, ties to the even one. -/
def ofCount (count : Nat) : Scalar :=
  .ofBits count.toUInt64.toFloat32.toBits

def ofFloat (number : Float) : Scalar :=
  .ofBits number.toFloat32.toBits

/-- The position of a scalar in the total order of all scalars: those with a
negative sign from the greatest magnitude down, and then those with a
positive sign from the least magnitude up.  A NaN counts as greater than any
number of its sign. -/
def rank (scalar : Scalar) : Int :=
  let bits := scalar.bits.toNat
  if bits < 0x80000000 then bits else 0x7fffffff - (bits : Int)

end Scalar

end SmallWorld
