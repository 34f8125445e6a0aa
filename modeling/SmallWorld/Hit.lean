import SmallWorld.Scalar.Order
import SmallWorld.Cloud

/-!
# Hits

A hit is a point with its distance to a query.  Hits are ordered by distance
and, among equally distant ones, by number, so that every search has one
answer.
-/

namespace SmallWorld

structure Hit where
  distance : Scalar
  id : PointId
  deriving DecidableEq

namespace Hit

/-- The order of hits: the nearer one first, and of two equally distant ones
the one with the lower number. -/
def le (first second : Hit) : Bool :=
  let firstRank := Scalar.rank first.distance
  let secondRank := Scalar.rank second.distance
  if firstRank = secondRank then
    first.id ≤ second.id
  else
    firstRank < secondRank

/-- Insert a hit into an ordered list, behind the hits that precede it. -/
def insert (hit : Hit) : List Hit → List Hit
  | [] => [hit]
  | first :: rest =>
      if hit.le first then hit :: first :: rest else first :: insert hit rest

def sort (hits : List Hit) : List Hit :=
  hits.mergeSort le

@[simp]
theorem mem_insert {hit other : Hit} {hits : List Hit} :
    other ∈ insert hit hits ↔ other = hit ∨ other ∈ hits := by
  induction hits with
  | nil => simp [insert]
  | cons first rest inductionHypothesis =>
      unfold insert
      split
      · exact List.mem_cons
      · rw [List.mem_cons, inductionHypothesis, List.mem_cons]
        exact or_left_comm

@[simp]
theorem length_insert (hit : Hit) (hits : List Hit) :
    (insert hit hits).length = hits.length + 1 := by
  induction hits with
  | nil => rfl
  | cons first rest inductionHypothesis =>
      unfold insert
      split
      · rfl
      · simp [inductionHypothesis]

end Hit

end SmallWorld
