import SmallWorld.Index.Basic
import SmallWorld.Selection
import SmallWorld.Traversal.Beam
import SmallWorld.Traversal.Descent

/-!
# Insertion

A new point draws its level, finds its place by a descent from the entry
point, and is then linked at each of its levels that the graph has, from the
highest one down.  At each level a beam search gives the candidates, and the
selected ones are linked with the new point in both directions.  A full run
selects its neighbours anew with the incoming one among the candidates.
-/

namespace SmallWorld

namespace Links

/-- Select the neighbours of a full run anew, from those it has and an
incoming one. -/
def reselect (cloud : Cloud) (owner : PointId) (level : Nat)
    (incoming : PointId) (links : Links) : Traced Links := do
  let neighbors ← links.neighbors owner level
  let candidates ← (neighbors ++ [incoming]).mapM fun neighbor => do
    let distance ← cloud.distanceBetween owner neighbor
    pure ({ distance, id := neighbor } : Hit)
  let capacity ← links.table.capacity level
  let kept ← cloud.chooseNeighbors owner (Hit.sort candidates) capacity
    (level == 0)
  Traced.record (.reselected owner level kept.length)
  links.overwrite owner level kept

def offer (cloud : Cloud) (owner neighbor : PointId) (level : Nat)
    (links : Links) : Traced Links :=
  if owner = neighbor then
    pure links
  else do
    let (outcome, links) ← links.add owner level neighbor
    match outcome with
    | .known | .added => pure links
    | .full => links.reselect cloud owner level neighbor

/-- Link a point with each of the given ones, in both directions. -/
def connect (cloud : Cloud) (id : PointId) (level : Nat) :
    List PointId → Links → Traced Links
  | [], links => pure links
  | neighbor :: rest, links => do
      let links ← links.offer cloud id neighbor level
      let links ← links.offer cloud neighbor id level
      connect cloud id level rest links

/-- Link a new point at one level, and return the hit from which the level
below is searched. -/
def connectLevel (cloud : Cloud) (width : Nat) (id : PointId)
    (vector : Coordinates) (level : Nat) (start : Hit) (links : Links) :
    Traced (Hit × Links) := do
  let beam ← (Layer.of cloud links vector level).search [start] width
  let capacity ← links.table.capacity level
  let selected ← cloud.chooseNeighbors id beam.kept capacity (level == 0)
  let links ← links.connect cloud id level selected
  pure (beam.kept.headD start, links)

def connectLevels (cloud : Cloud) (width : Nat) (id : PointId)
    (vector : Coordinates) : (level : Nat) → Hit → Links → Traced Links
  | 0, start, links => do
      let (_, links) ← links.connectLevel cloud width id vector 0 start
      pure links
  | level + 1, start, links => do
      let (start, links) ←
        links.connectLevel cloud width id vector (level + 1) start
      connectLevels cloud width id vector level start links

end Links

namespace Index

variable {σ : Type} [UniformSource σ]

def place (index : Index σ) (vector : Coordinates) :
    Traced (PointId × Index σ) := do
  let (id, cloud) ← index.cloud.push vector
  let (level, source) := index.links.table.draw index.source
  let (_, links) ← index.links.allocate level
  Traced.record (.inserting id level)
  match index.entryPoint with
  | none =>
      Traced.record (.firstPoint id level)
      pure (id,
        { index with
          cloud, links, source, entryPoint := some id, topLevel := level })
  | some entryPoint =>
      let distance ← cloud.distanceTo entryPoint vector
      let (start, _) ← descend (Layer.of cloud links vector) level
        index.topLevel { distance, id := entryPoint }
      let width := index.settings.constructionWidth
      let links ← links.connectLevels cloud width id vector
        (min level index.topLevel) start
      if index.topLevel < level then
        Traced.record (.newEntryPoint id level index.topLevel)
        pure (id,
          { index with
            cloud, links, source, entryPoint := some id, topLevel := level })
      else
        pure (id, { index with cloud, links, source })

def insert (index : Index σ) (vector : Coordinates) :
    Traced (PointId × Index σ) := do
  requireAcceptable index.dimension vector
  requireRoom index.size 1
  index.place vector

def placeAll : List Coordinates → Index σ → Traced (Index σ)
  | [], index => pure index
  | vector :: rest, index => do
      let (_, index) ← index.place vector
      placeAll rest index

/-- Insert vectors one after the other, or none of them if one is refused.
The result is the first number, the number after the last one, and the
index. -/
def insertAll (index : Index σ) (vectors : List Coordinates) :
    Traced (PointId × PointId × Index σ) := do
  requireAllAcceptable index.dimension vectors
  requireRoom index.size vectors.length
  let start := index.size
  let index ← placeAll vectors index
  pure (start, index.size, index)

end Index

end SmallWorld
