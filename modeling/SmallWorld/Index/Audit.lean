import SmallWorld.Index.Basic
import SmallWorld.Traversal.Reach

/-!
# Audits

`Index.audit` looks for violations of what every index should satisfy: each
block has the size that the level of its point calls for, each run lists
distinct other points that reach its level, without gaps, and the entry point
is on the top level.

`Index.connectivity` counts the points of a level that can be reached from
the entry point, and the others.
-/

namespace SmallWorld

inductive Violation where
  | blockSize (id : PointId) (expected actual : Nat)
  | gap (id : PointId) (level : Nat)
  | selfLoop (id : PointId) (level : Nat)
  | outOfRange (id : PointId) (level : Nat) (neighbor : PointId)
  | duplicate (id : PointId) (level : Nat) (neighbor : PointId)
  | belowLevel (id : PointId) (level : Nat) (neighbor : PointId)
  | entryLevel (entryPoint : PointId) (level topLevel : Nat)
  deriving DecidableEq, Repr

def Violation.message : Violation → String
  | .blockSize id expected actual =>
      s!"point {id}: slot block holds {actual} slots, " ++
        s!"its level needs {expected}"
  | .gap id level =>
      s!"point {id} level {level}: sentinel before a valid neighbor"
  | .selfLoop id level => s!"point {id} level {level}: links to itself"
  | .outOfRange id level neighbor =>
      s!"point {id} level {level}: neighbor {neighbor} does not exist"
  | .duplicate id level neighbor =>
      s!"point {id} level {level}: neighbor {neighbor} listed twice"
  | .belowLevel id level neighbor =>
      s!"point {id} level {level}: neighbor {neighbor} " ++
        "does not reach this level"
  | .entryLevel entryPoint level topLevel =>
      s!"entry point {entryPoint} is at level {level}, " ++
        s!"max level is {topLevel}"

namespace Links

/-- The violations in the neighbours that a run lists, after those in
`earlier`. -/
def auditNeighbors (links : Links) (id : PointId) (level : Nat) :
    (earlier : List PointId) → List PointId → List Violation
  | _, [] => []
  | earlier, neighbor :: rest =>
      if neighbor = id then
        .selfLoop id level ::
          (repeated earlier neighbor ++
            links.auditNeighbors id level (neighbor :: earlier) rest)
      else
        match links.levels[neighbor]? with
        | none =>
            .outOfRange id level neighbor ::
              links.auditNeighbors id level earlier rest
        | some own =>
            (if own < level then [.belowLevel id level neighbor] else []) ++
              (repeated earlier neighbor ++
                links.auditNeighbors id level (neighbor :: earlier) rest)
where
  /-- A neighbour that has been listed before is a violation. -/
  repeated (earlier : List PointId) (neighbor : PointId) : List Violation :=
    if neighbor ∈ earlier then [.duplicate id level neighbor] else []

def auditRun (links : Links) (id : PointId) (level : Nat) :
    Except Fault (List Violation) := do
  let run ← links.run id level
  let neighbors := listed run
  let gap :=
    if (run.drop neighbors.length).any (· != noNeighbor) then
      [.gap id level]
    else
      []
  pure (gap ++ links.auditNeighbors id level [] neighbors)

/-- The violations in the block of a point on the given level.  The runs of a
block of the wrong size are not looked at. -/
def auditBlock (links : Links) (id : PointId) (own : Nat) :
    Except Fault (List Violation) := do
  let start ← links.offset id
  let stop ← links.offset (id + 1)
  let expected ← links.table.blockLength own
  if stop < start then
    .error .outOfBounds
  else if stop - start = expected then do
    let violations ←
      (List.range (own + 1)).mapM fun level => links.auditRun id level
    pure violations.flatten
  else
    pure [.blockSize id expected (stop - start)]

end Links

namespace Index

variable {σ : Type}

/-- The violation that the entry point may be: it is not on the top level. -/
def auditEntry (index : Index σ) : Except Fault (List Violation) :=
  match index.entryPoint with
  | none => .ok []
  | some entryPoint => do
      let level ← index.links.level entryPoint
      if level = index.topLevel then
        pure []
      else
        pure [.entryLevel entryPoint level index.topLevel]

/-- All violations: those of the blocks in the order of the points, and that
of the entry point. -/
def audit (index : Index σ) : Except Fault (List Violation) := do
  let blocks ← index.links.levels.toList.zipIdx.mapM fun (own, id) =>
    index.links.auditBlock id own
  let entry ← index.auditEntry
  pure (blocks.flatten ++ entry)

/-- How many points of a level can be reached from the entry point along the
runs of that level, and how many cannot. -/
def connectivity (index : Index σ) (level : Nat) :
    Except Fault (Nat × Nat) :=
  match index.entryPoint with
  | none => .ok (0, 0)
  | some entryPoint =>
      if index.topLevel < level then
        .ok (0, 0)
      else do
        let reached ← index.links.reachable level entryPoint
        let atLevel :=
          index.links.levels.toList.countP fun own => level ≤ own
        pure (reached.size, atLevel - reached.size)

end Index

end SmallWorld
