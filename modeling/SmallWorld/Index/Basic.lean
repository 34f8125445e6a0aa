import SmallWorld.Links
import SmallWorld.Journal
import SmallWorld.Settings
import SmallWorld.Source.Congruential

/-!
# The index

An index holds the vectors of its points, their neighbours at each level, the
point at which every search starts, and the source from which the levels of
further points are drawn.
-/

namespace SmallWorld

/-- A layered graph over stored vectors. -/
structure Index (σ : Type) where
  settings : Settings
  cloud : Cloud
  links : Links
  /-- The point at which searches start. -/
  entryPoint : Option PointId
  /-- The level at which searches start. -/
  topLevel : Nat
  /-- The source of levels for further points. -/
  source : σ

namespace Index

variable {σ : Type}

/-- An index without points, whose levels are drawn from the given source. -/
def create (dimension : Nat) (settings : Settings) (source : σ) :
    Traced (Index σ) := do
  settings.validate dimension
  let table ← LevelTable.ofBranching settings.branching
  let cloud ← Cloud.empty dimension
  Traced.record (.created dimension settings.branching
    settings.constructionWidth settings.searchWidth table.count)
  pure
    { settings
      cloud
      links := Links.empty table
      entryPoint := none
      topLevel := 0
      source }

/-- An index without points, whose levels are drawn from the congruential
generator started from the seed of the settings. -/
def ofSettings (dimension : Nat) (settings : Settings) :
    Traced (Index Congruential) :=
  create dimension settings (Congruential.ofSeed settings.seed)

def size (index : Index σ) : Nat :=
  index.cloud.size

def dimension (index : Index σ) : Nat :=
  index.cloud.dimension

def levelOf? (index : Index σ) (id : PointId) : Option Nat :=
  index.links.levels[id]?

def neighbors? (index : Index σ) (id : PointId) (level : Nat) :
    Except Fault (Option (List PointId)) :=
  match index.levelOf? id with
  | none => .ok none
  | some own =>
      if level ≤ own then do
        let neighbors ← index.links.neighbors id level
        pure (some neighbors)
      else
        .ok none

def vector? (index : Index σ) (id : PointId) : Option Coordinates :=
  index.cloud.vectors[id]?

def graph (index : Index σ) : Except Fault (List (List (List PointId))) :=
  index.links.levels.toList.zipIdx.mapM fun (own, id) =>
    (List.range (own + 1)).mapM fun level => index.links.neighbors id level

/-- The runs of which the listed neighbours differ from those in an earlier
graph, where runs that the earlier graph lacks count as empty. -/
def changes (earlier later : List (List (List PointId))) :
    List (PointId × Nat × List PointId) :=
  later.zipIdx.flatMap fun (runs, id) =>
    runs.zipIdx.filterMap fun (run, level) =>
      let former := (earlier.getD id []).getD level []
      if former = run then none else some (id, level, run)

end Index

end SmallWorld
