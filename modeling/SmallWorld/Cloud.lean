import SmallWorld.Euclidean

/-!
# The cloud of stored vectors

Points are numbered from 0 in the order of their arrival.  The number
`noNeighbor` is kept free, because it marks an unused slot of a run.
-/

namespace SmallWorld

abbrev PointId := Nat

/-- The mark of a slot without a neighbour. -/
def noNeighbor : PointId := 0xffffffff

def greatestSize : Nat := 0xffffffff

/-- The number for a point that follows `size` others. -/
def pointId (size : Nat) : Except Refusal PointId :=
  if greatestSize ≤ size then .error (.full greatestSize) else .ok size

/-- Refuse to add more points than there are numbers left. -/
def requireRoom (size additional : Nat) : Except Refusal Unit :=
  if greatestSize - size < additional then
    .error (.full greatestSize)
  else
    .ok ()

structure Cloud where
  dimension : Nat
  vectors : Array Coordinates

namespace Cloud

/-- The cloud without points, for vectors of a positive dimension. -/
def empty (dimension : Nat) : Except Refusal Cloud :=
  if dimension = 0 then
    .error (.invalid .zeroDimension)
  else
    .ok { dimension, vectors := #[] }

def size (cloud : Cloud) : Nat :=
  cloud.vectors.size

/-- Append a vector.  Its dimension and range are the caller's to check. -/
def push (cloud : Cloud) (vector : Coordinates) :
    Except Refusal (PointId × Cloud) := do
  let id ← pointId cloud.size
  pure (id, { cloud with vectors := cloud.vectors.push vector })

def vector (cloud : Cloud) (id : PointId) : Except Fault Coordinates :=
  match cloud.vectors[id]? with
  | some vector => .ok vector
  | none => .error .outOfBounds

def distanceTo (cloud : Cloud) (id : PointId) (query : Coordinates) :
    Except Fault Scalar := do
  let stored ← cloud.vector id
  finiteDistance stored query

def distanceBetween (cloud : Cloud) (first second : PointId) :
    Except Fault Scalar := do
  let stored ← cloud.vector first
  let stored' ← cloud.vector second
  finiteDistance stored stored'

theorem lt_size_of_vector {cloud : Cloud} {id : PointId}
    {vector : Coordinates} (found : cloud.vector id = .ok vector) :
    id < cloud.size := by
  unfold Cloud.vector at found
  split at found
  · next stored =>
      obtain ⟨inside, _⟩ := Array.getElem?_eq_some_iff.mp stored
      exact inside
  · cases found

theorem lt_size_of_distanceTo {cloud : Cloud} {id : PointId}
    {query : Coordinates} {value : Scalar}
    (measured : cloud.distanceTo id query = .ok value) :
    id < cloud.size := by
  unfold distanceTo at measured
  cases found : cloud.vector id with
  | error fault =>
      rw [found] at measured
      cases measured
  | ok vector => exact lt_size_of_vector found

end Cloud

end SmallWorld
