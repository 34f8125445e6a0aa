import SmallWorld.Index.Basic
import SmallWorld.Traversal.Beam
import SmallWorld.Traversal.Descent

/-!
# Queries

A query descends from the entry point to level 1 and then searches level 0
with a beam, which is at least as wide as the number of hits asked for.
-/

namespace SmallWorld.Index

variable {σ : Type}

/-- Refuse a query that asks for nothing or does not fit the index, and find
the point to start from. -/
def entryFor (index : Index σ) (query : Coordinates) (count width : Nat) :
    Except Refusal PointId := do
  if count = 0 then
    .error (.invalid .zeroCount)
  else if width = 0 then
    .error (.invalid .zeroSearchWidth)
  else
    requireAcceptable index.dimension query
    match index.entryPoint with
    | none => .error .noPoints
    | some entryPoint => .ok entryPoint

/-- The `count` nearest points that a beam of the given width finds, nearest
first, and the work of the search. -/
def searchWithWork (index : Index σ) (query : Coordinates)
    (count width : Nat) : Except Failure (List Hit × Work) := do
  let entryPoint ← index.entryFor query count width
  let layer := Layer.of index.cloud index.links query
  let distance ← index.cloud.distanceTo entryPoint query
  let (start, descent) ←
    descend layer 0 index.topLevel { distance, id := entryPoint }
  let beam ← (layer 0).search [start] (max width count)
  let first : Work := { distances := 1, visited := 0, hops := 0 }
  pure (beam.kept.take count, first + descent + beam.work)

def searchWidth (index : Index σ) (query : Coordinates) (count width : Nat) :
    Except Failure (List Hit) := do
  let (hits, _) ← index.searchWithWork query count width
  pure hits

/-- The `count` nearest points that a beam of the usual width finds. -/
def search (index : Index σ) (query : Coordinates) (count : Nat) :
    Except Failure (List Hit) :=
  index.searchWidth query count index.settings.searchWidth

end SmallWorld.Index
