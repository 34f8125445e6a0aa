import SmallWorld.Failure

/-!
# Euclidean distance

The distance is the norm of the difference, not its square: neighbour
selection compares distances of different pairs of points and relies on the
triangle inequality.

An index takes vectors of its own dimension whose components are finite and
so small that no distance can overflow.  The checks name the first component
that fails.
-/

namespace SmallWorld

abbrev Coordinates := List Scalar

/-- The sum of scalars from the left.  The empty sum is the negative zero,
which changes no number when it is added. -/
def scalarSum (terms : List Scalar) : Scalar :=
  terms.foldl (· + ·) Scalar.negativeZero

/-- The squared distance over the components that both vectors have. -/
def squaredDistance (left right : Coordinates) : Scalar :=
  scalarSum (List.zipWith (fun x y => (x - y) * (x - y)) left right)

/-- The Euclidean distance, infinite for vectors of different lengths. -/
def distance (left right : Coordinates) : Scalar :=
  if left.length = right.length then
    (squaredDistance left right).sqrt
  else
    Scalar.infinity

/-- The Euclidean distance where it has to be finite.  Vectors are checked on
their way into an index, so any other value shows that the index is broken. -/
def finiteDistance (left right : Coordinates) : Except Fault Scalar :=
  let value := distance left right
  if value.isFinite then .ok value else .error (.brokenDistance value)

/-- The largest magnitude that a component of a vector of the given dimension
may have.  Two such vectors differ by at most twice that in each component,
and their squared distance stays finite, whatever the dimension. -/
def greatestComponent (dimension : Nat) : Scalar :=
  let eight : Scalar := .ofBits 0x41000000
  (Scalar.greatest / (eight * Scalar.ofCount (max dimension 1))).sqrt

def firstComponent? (property : Scalar → Bool) (vector : Coordinates) :
    Option (Scalar × Nat) :=
  vector.zipIdx.find? fun entry => property entry.1

def requireFinite (vector : Coordinates) : Except Refusal Unit :=
  match firstComponent? (fun value => !value.isFinite) vector with
  | some (value, position) => .error (.invalid (.notFinite position value))
  | none => .ok ()

def requireInRange (vector : Coordinates) : Except Refusal Unit := do
  requireFinite vector
  let bound := greatestComponent vector.length
  match firstComponent? (fun value => bound < value.abs) vector with
  | some (value, position) =>
      .error (.invalid (.tooLarge position value bound))
  | none => .ok ()

def requireDimension (expected : Nat) (vector : Coordinates) :
    Except Refusal Unit :=
  if vector.length = expected then
    .ok ()
  else
    .error (.dimensionMismatch expected vector.length)

def requireAcceptable (dimension : Nat) (vector : Coordinates) :
    Except Refusal Unit := do
  requireDimension dimension vector
  requireInRange vector

/-- Refuse vectors of which one cannot be stored; the first such vector tells
why. -/
def requireAllAcceptable (dimension : Nat) :
    List Coordinates → Except Refusal Unit
  | [] => .ok ()
  | vector :: rest => do
      requireAcceptable dimension vector
      requireAllAcceptable dimension rest

end SmallWorld
