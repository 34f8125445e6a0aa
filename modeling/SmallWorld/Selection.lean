import SmallWorld.Hit
import SmallWorld.Cloud

/-!
# Neighbour selection

The neighbours of a point should lie in different directions.  Candidates are
looked at in the given order, and one is *diverse* if no neighbour chosen
before is strictly nearer to it than the point itself is.  Diverse candidates
are chosen until the run is full.  On request the places that are left are
added with the candidates that were passed over.
-/

namespace SmallWorld

namespace Cloud

/-- Whether no chosen neighbour is strictly nearer to a candidate than the
candidate's own distance. -/
def isDiverse (cloud : Cloud) (candidate : Hit) :
    (chosen : List PointId) → Except Fault Bool
  | [] => .ok true
  | neighbor :: rest => do
      let distance ← cloud.distanceBetween candidate.id neighbor
      if candidate.distance ≤ distance then
        cloud.isDiverse candidate rest
      else
        .ok false

/-- The number of places that the chosen neighbours leave.  More of them than
there are places are a fault. -/
def placesLeft (capacity chosen : Nat) : Except Fault Nat :=
  if capacity < chosen then
    .error (.negativeRoom chosen capacity)
  else
    .ok (capacity - chosen)

/-- Go through the candidates, with the neighbours chosen and the candidates
passed over so far, until `capacity` neighbours are chosen. -/
def chooseFrom (cloud : Cloud) (owner : PointId) (capacity : Nat)
    (backfill : Bool) (chosen passedOver : List PointId) :
    (candidates : List Hit) → Except Fault (List PointId)
  | [] =>
      if backfill then do
        let room ← placesLeft capacity chosen.length
        pure (chosen ++ passedOver.take room)
      else
        .ok chosen
  | candidate :: rest =>
      if candidate.id = owner then
        cloud.chooseFrom owner capacity backfill chosen passedOver rest
      else do
        let diverse ← cloud.isDiverse candidate chosen
        if diverse then
          let chosen := chosen ++ [candidate.id]
          if capacity ≤ chosen.length then
            .ok chosen
          else
            cloud.chooseFrom owner capacity backfill chosen passedOver rest
        else
          cloud.chooseFrom owner capacity backfill chosen
            (passedOver ++ [candidate.id]) rest

/-- Select at most `capacity` neighbours for a point from candidates with
their distances to it.  The point itself is never selected. -/
def chooseNeighbors (cloud : Cloud) (owner : PointId)
    (candidates : List Hit) (capacity : Nat) (backfill : Bool) :
    Except Fault (List PointId) :=
  if capacity = 0 then
    .ok []
  else
    cloud.chooseFrom owner capacity backfill [] [] candidates

end Cloud

end SmallWorld
