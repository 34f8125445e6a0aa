import SmallWorld.Index.Run

/-!
# The history of offers

An index does not remember what its runs have been offered.  Here points are
inserted by the same steps as ever, and each offer to a run is noted when it
is made.  What is noted is only added to, and no step looks at it.
-/

namespace SmallWorld

structure Offer where
  owner : PointId
  neighbor : PointId
  level : Nat
  deriving DecidableEq, Repr

/-- The offers by which a point is linked with others in both directions. -/
def Offer.between (id : PointId) (level : Nat) (neighbors : List PointId) :
    List Offer :=
  neighbors.flatMap fun neighbor =>
    [⟨id, neighbor, level⟩, ⟨neighbor, id, level⟩]

/-- A value with the offers that have been made on the way to it. -/
structure Noted (α : Type) where
  value : α
  offers : List Offer

namespace Noted

section Links

variable (cloud : Cloud)

/-- Offer a neighbour to a run, and note the offer. -/
def offer (owner neighbor : PointId) (level : Nat) (noted : Noted Links) :
    Traced (Noted Links) := do
  let links ← noted.value.offer cloud owner neighbor level
  pure
    { value := links
      offers := noted.offers ++ [⟨owner, neighbor, level⟩] }

def connect (id : PointId) (level : Nat) :
    List PointId → Noted Links → Traced (Noted Links)
  | [], noted => pure noted
  | neighbor :: rest, noted => do
      let noted ← noted.offer cloud id neighbor level
      let noted ← noted.offer cloud neighbor id level
      connect id level rest noted

def connectLevel (width : Nat) (id : PointId) (vector : Coordinates)
    (level : Nat) (start : Hit) (noted : Noted Links) :
    Traced (Hit × Noted Links) := do
  let beam ← (Layer.of cloud noted.value vector level).search [start] width
  let capacity ← noted.value.table.capacity level
  let selected ← cloud.chooseNeighbors id beam.kept capacity (level == 0)
  let noted ← noted.connect cloud id level selected
  pure (beam.kept.headD start, noted)

def connectLevels (width : Nat) (id : PointId) (vector : Coordinates) :
    (level : Nat) → Hit → Noted Links → Traced (Noted Links)
  | 0, start, noted => do
      let (_, noted) ← noted.connectLevel cloud width id vector 0 start
      pure noted
  | level + 1, start, noted => do
      let (start, noted) ←
        noted.connectLevel cloud width id vector (level + 1) start
      connectLevels width id vector level start noted

end Links

section Index

variable {σ : Type} [UniformSource σ]

/-- Insert a checked vector as `Index.place` does. -/
def place (noted : Noted (Index σ)) (vector : Coordinates) :
    Traced (PointId × Noted (Index σ)) := do
  let index := noted.value
  let (id, cloud) ← index.cloud.push vector
  let (level, source) := index.links.table.draw index.source
  let (_, links) ← index.links.allocate level
  Traced.record (.inserting id level)
  match index.entryPoint with
  | none =>
      Traced.record (.firstPoint id level)
      pure (id,
        { value :=
            { index with
              cloud, links, source, entryPoint := some id, topLevel := level }
          offers := noted.offers })
  | some entryPoint =>
      let distance ← cloud.distanceTo entryPoint vector
      let (start, _) ← descend (Layer.of cloud links vector) level
        index.topLevel { distance, id := entryPoint }
      let width := index.settings.constructionWidth
      let ⟨links, offers⟩ ← connectLevels cloud width id vector
        (min level index.topLevel) start
        { value := links, offers := noted.offers }
      if index.topLevel < level then
        Traced.record (.newEntryPoint id level index.topLevel)
        pure (id,
          { value :=
              { index with
                cloud, links, source, entryPoint := some id, topLevel := level }
            offers })
      else
        pure (id, { value := { index with cloud, links, source }, offers })

def insert (noted : Noted (Index σ)) (vector : Coordinates) :
    Traced (PointId × Noted (Index σ)) := do
  requireAcceptable noted.value.dimension vector
  requireRoom noted.value.size 1
  noted.place vector

def placeAll : List Coordinates → Noted (Index σ) → Traced (Noted (Index σ))
  | [], noted => pure noted
  | vector :: rest, noted => do
      let (_, noted) ← noted.place vector
      placeAll rest noted

def insertAll (noted : Noted (Index σ)) (vectors : List Coordinates) :
    Traced (PointId × PointId × Noted (Index σ)) := do
  requireAllAcceptable noted.value.dimension vectors
  requireRoom noted.value.size vectors.length
  let start := noted.value.size
  let noted ← placeAll vectors noted
  pure (start, noted.value.size, noted)

def settleCall (noted : Noted (Index σ)) :
    Except Failure (Noted (Index σ)) → Except Fault (Noted (Index σ))
  | .ok next => .ok next
  | .error (.refused _) => .ok noted
  | .error (.faulted fault) => .error fault

def apply (noted : Noted (Index σ)) : Call → Except Fault (Noted (Index σ))
  | .insert vector =>
      noted.settleCall ((noted.insert vector).outcome.map fun (_, next) => next)
  | .insertAll vectors =>
      noted.settleCall
        ((noted.insertAll vectors).outcome.map fun (_, _, next) => next)

def run (noted : Noted (Index σ)) : List Call → Except Fault (Noted (Index σ))
  | [] => .ok noted
  | call :: rest => do
      let next ← noted.apply call
      next.run rest

end Index

end Noted

end SmallWorld
