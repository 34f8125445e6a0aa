import SmallWorld.Index.Insertion

/-!
# Insertion in place

An index can be changed step by step instead of being replaced as a whole.
Then a failure leaves behind what has been changed before it: a vector that is
stored, a level that is drawn, a block that is allocated.  Here insertion is
spelled out in such steps.
-/

namespace SmallWorld

/-- A computation that changes an index.  What it has changed before it fails
stays changed. -/
abbrev Changing (σ α : Type) := EStateM Failure (Index σ) α

namespace Changing

variable {σ α : Type}

def attempt : Except Failure α → Changing σ α
  | .ok value => pure value
  | .error failure => throw failure

variable [UniformSource σ]

/-- Link the new point and let it take over the entry if it is above all
others. -/
def link (id : PointId) (vector : Coordinates) (level : Nat)
    (entryPoint : PointId) : Changing σ Unit := do
  let index ← get
  let distance ← attempt (index.cloud.distanceTo entryPoint vector)
  let (start, _) ← attempt (descend (Layer.of index.cloud index.links vector)
    level index.topLevel { distance, id := entryPoint })
  let links ← attempt (index.links.connectLevels index.cloud
    index.settings.constructionWidth id vector (min level index.topLevel)
    start).outcome
  modify fun index => { index with links }
  if index.topLevel < level then
    modify fun index => { index with entryPoint := some id, topLevel := level }

/-- Insert a vector that has been checked: store it, draw its level, allocate
its block and link it. -/
def place (vector : Coordinates) : Changing σ PointId := do
  let (id, cloud) ← attempt ((← get).cloud.push vector)
  modify fun index => { index with cloud }
  let (level, source) := (← get).links.table.draw (← get).source
  modify fun index => { index with source }
  let (_, links) ← attempt ((← get).links.allocate level)
  modify fun index => { index with links }
  match (← get).entryPoint with
  | none =>
      modify fun index =>
        { index with entryPoint := some id, topLevel := level }
  | some entryPoint => link id vector level entryPoint
  pure id

def placeAll : List Coordinates → Changing σ Unit
  | [] => pure ()
  | vector :: rest => do
      let _ ← place vector
      placeAll rest

/-- Insert vectors after all of them have been checked.  The result is the
first number and the number after the last one. -/
def insertAll (vectors : List Coordinates) :
    Changing σ (PointId × PointId) := do
  let index ← get
  attempt (requireAllAcceptable index.dimension vectors)
  attempt (requireRoom index.size vectors.length)
  placeAll vectors
  pure (index.size, (← get).size)

end Changing

end SmallWorld
