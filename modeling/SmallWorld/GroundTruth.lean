import SmallWorld.Hit

/-!
# Exact neighbours

The nearest vectors of a database by brute force are the yardstick for searches
in an index.  Recall is the share of these true neighbours that a search has
found, as a scalar between zero and one.
-/

namespace SmallWorld

/-- The hits of all vectors of a database, in the order of their numbers.
Vectors of another dimension than the query are infinitely far. -/
def allHits (query : Coordinates) (database : List Coordinates) : List Hit :=
  database.zipIdx.map fun (vector, id) =>
    { distance := distance query vector, id }

/-- The `count` nearest vectors of a database, nearest first. -/
def exactNearest (query : Coordinates) (database : List Coordinates)
    (count : Nat) : List Hit :=
  (Hit.sort (allHits query database)).take count

def exactIds (database : List Coordinates) (count : Nat)
    (query : Coordinates) : List PointId :=
  (exactNearest query database count).map Hit.id

/-- The number of distinct points among the first `count` of `found` that are
among the first `count` of `truth`. -/
def commonCount (truth found : List PointId) (count : Nat) : Nat :=
  ((found.take count).eraseDups.filter (· ∈ truth.take count)).length

/-- The share of the `count` true neighbours that are among the first `count`
points found; zero if nothing is asked for or nothing is true. -/
def recallAt (truth found : List PointId) (count : Nat) : Scalar :=
  if count = 0 ∨ truth = [] then
    Scalar.zero
  else
    Scalar.ofCount (commonCount truth found count) / Scalar.ofCount count

def missRateAt (truth found : List PointId) (count : Nat) : Scalar :=
  Scalar.one - recallAt truth found count

/-- The mean recall over several queries.  Queries without an answer add
nothing to the sum and count in the mean. -/
def meanRecall (truths founds : List (List PointId)) (count : Nat) : Scalar :=
  if truths = [] then
    Scalar.zero
  else
    let recalls := List.zipWith (fun truth found =>
      recallAt truth found count) truths founds
    scalarSum recalls / Scalar.ofCount truths.length

end SmallWorld
