import SmallWorld.Cloud
import SmallWorld.LevelTable

/-!
# Links

All neighbours of all points lie in one array of slots.  Each point owns a
block of it, and the block is divided into one run per level of the point,
from level 0 up.  The used slots of a run come first, and `noNeighbor` marks
the rest.
-/

namespace SmallWorld

/-- The neighbours of all points.  Block `id` lies between the offsets number
`id` and `id + 1`. -/
structure Links where
  table : LevelTable
  slots : Array PointId
  offsets : Array Nat
  levels : Array Nat

inductive LinkResult where
  /-- The neighbour was in the run already. -/
  | known
  /-- The neighbour took the first free slot. -/
  | added
  /-- There is no free slot. -/
  | full
  deriving DecidableEq

namespace Links

def empty (table : LevelTable) : Links where
  table
  slots := #[]
  offsets := #[0]
  levels := #[]

def size (links : Links) : Nat :=
  links.levels.size

/-- Append a block of free slots for a point on the given level. -/
def allocate (links : Links) (level : Nat) :
    Except Failure (PointId × Links) := do
  let id ← pointId links.size
  let length ← links.table.blockLength level
  let slots := links.slots ++ Array.replicate length noNeighbor
  pure (id,
    { links with
      slots
      offsets := links.offsets.push slots.size
      levels := links.levels.push level })

def level (links : Links) (id : PointId) : Except Fault Nat :=
  match links.levels[id]? with
  | some level => .ok level
  | none => .error .outOfBounds

/-- The offset at which a block starts, or at which the last one ends. -/
def offset (links : Links) (position : Nat) : Except Fault Nat :=
  match links.offsets[position]? with
  | some offset => .ok offset
  | none => .error .outOfBounds

/-- The first slot of a run and its length, as the table of levels and the
offsets have it.  A point has no run above its own level. -/
def bounds (links : Links) (id : PointId) (level : Nat) :
    Except Fault (Nat × Nat) := do
  let own ← links.level id
  let base ← links.offset id
  let (start, length) ← links.table.run level
  if level ≤ own then
    pure (base + start, length)
  else
    .error .outOfBounds

/-- The slots of a run, used or not. -/
def run (links : Links) (id : PointId) (level : Nat) :
    Except Fault (List PointId) := do
  let (start, length) ← links.bounds id level
  if start + length ≤ links.slots.size then
    pure (links.slots.extract start (start + length)).toList
  else
    .error .outOfBounds

/-- The neighbours listed in a run: its slots before the first free one. -/
def listed (run : List PointId) : List PointId :=
  run.takeWhile (· != noNeighbor)

def neighbors (links : Links) (id : PointId) (level : Nat) :
    Except Fault (List PointId) := do
  let run ← links.run id level
  pure (listed run)

/-- Append a neighbour to a run, unless it is there already or there is no
free slot. -/
def add (links : Links) (id : PointId) (level : Nat) (neighbor : PointId) :
    Except Fault (LinkResult × Links) := do
  let (start, _) ← links.bounds id level
  let run ← links.run id level
  let used := (run.takeWhile fun slot =>
    slot != neighbor && slot != noNeighbor).length
  if used = run.length then
    pure (.full, links)
  else if run[used]? = some neighbor then
    pure (.known, links)
  else
    pure (.added,
      { links with
        slots := links.slots.setIfInBounds (start + used) neighbor })

def write (slots : Array PointId) : Nat → List PointId → Array PointId
  | _, [] => slots
  | position, value :: values =>
      write (slots.setIfInBounds position value) (position + 1) values

/-- Replace the neighbours listed in a run.  More of them than the run has
slots are a fault. -/
def overwrite (links : Links) (id : PointId) (level : Nat)
    (neighbors : List PointId) : Except Fault Links := do
  let (start, length) ← links.bounds id level
  if length < neighbors.length then
    .error (.overfullRun neighbors.length length level)
  else if start + length ≤ links.slots.size then
    let free := List.replicate (length - neighbors.length) noNeighbor
    pure { links with slots := write links.slots start (neighbors ++ free) }
  else
    .error .outOfBounds

end Links

end SmallWorld
