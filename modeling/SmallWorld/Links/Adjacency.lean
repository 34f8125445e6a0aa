import SmallWorld.Links.Operation

/-!
# Maps of bounded lists

What links are for, without their slots: a map from points and levels to lists
of neighbours.  A list at level 0 has room for twice as many neighbours as the
lists above.
-/

namespace SmallWorld

structure Adjacency where
  /-- The number of points. -/
  size : Nat
  /-- The list of a point at a level, if the point reaches the level. -/
  list? : PointId → Nat → Option (List PointId)

namespace Adjacency

def empty : Adjacency where
  size := 0
  list? _ _ := none

def capacity (branching level : Nat) : Nat :=
  if level = 0 then 2 * branching else branching

def extend (adjacency : Adjacency) (level : Nat) : Adjacency where
  size := adjacency.size + 1
  list? id level' :=
    if id = adjacency.size then
      if level' ≤ level then some [] else none
    else
      adjacency.list? id level'

def replace (adjacency : Adjacency) (id : PointId) (level : Nat)
    (neighbors : List PointId) : Adjacency :=
  { adjacency with
    list? := fun other level' =>
      if other = id ∧ level' = level then
        some neighbors
      else
        adjacency.list? other level' }

/-- The neighbours of a point at a level, none if there is no list. -/
def neighbors (adjacency : Adjacency) (id : PointId) (level : Nat) :
    List PointId :=
  (adjacency.list? id level).getD []

def perform (branching : Nat) (adjacency : Adjacency) :
    Links.Operation → Links.Answer × Adjacency
  | .allocate level =>
      if adjacency.size < greatestSize then
        (.allocated adjacency.size, adjacency.extend level)
      else
        (.refused (.full greatestSize), adjacency)
  | .add id level neighbor =>
      let listed := adjacency.neighbors id level
      if neighbor ∈ listed then
        (.linked .known, adjacency)
      else if listed.length < capacity branching level then
        (.linked .added, adjacency.replace id level (listed ++ [neighbor]))
      else
        (.linked .full, adjacency)
  | .overwrite id level neighbors =>
      (.overwritten, adjacency.replace id level neighbors)

def performAll (branching : Nat) (adjacency : Adjacency) :
    List Links.Operation → List Links.Answer × Adjacency
  | [] => ([], adjacency)
  | operation :: rest =>
      let (answer, adjacency) := adjacency.perform branching operation
      let (answers, adjacency) := adjacency.performAll branching rest
      (answer :: answers, adjacency)

/-- Whether an operation is one that links are made for: a new point is on a
listed level, and what is written into an existing list fits and is no mark of
a free slot. -/
def Admits (table : LevelTable) (adjacency : Adjacency) :
    Links.Operation → Prop
  | .allocate level => level < table.count
  | .add id level neighbor =>
      (adjacency.list? id level).isSome ∧ neighbor ≠ noNeighbor
  | .overwrite id level neighbors =>
      (adjacency.list? id level).isSome ∧ noNeighbor ∉ neighbors ∧
        neighbors.length ≤ capacity table.branching level

instance (table : LevelTable) (adjacency : Adjacency) :
    DecidablePred (adjacency.Admits table)
  | .allocate level => inferInstanceAs (Decidable (level < table.count))
  | .add id level neighbor =>
      inferInstanceAs (Decidable ((adjacency.list? id level).isSome ∧
        neighbor ≠ noNeighbor))
  | .overwrite id level neighbors =>
      inferInstanceAs (Decidable ((adjacency.list? id level).isSome ∧
        noNeighbor ∉ neighbors ∧
        neighbors.length ≤ capacity table.branching level))

/-- Whether each operation is admitted when its turn comes. -/
def AdmitsAll (table : LevelTable) (adjacency : Adjacency) :
    List Links.Operation → Prop
  | [] => True
  | operation :: rest =>
      adjacency.Admits table operation ∧
        (adjacency.perform table.branching operation).2.AdmitsAll table rest

instance decidableAdmitsAll (table : LevelTable) (adjacency : Adjacency) :
    (operations : List Links.Operation) →
      Decidable (adjacency.AdmitsAll table operations)
  | [] => inferInstanceAs (Decidable True)
  | operation :: rest =>
      have := decidableAdmitsAll table
        (adjacency.perform table.branching operation).2 rest
      inferInstanceAs (Decidable (_ ∧ _))

/-- All lists, points and then levels ascending, each with the mark of a free
slot in the place of every neighbour for which it has room. -/
def slots (table : LevelTable) (adjacency : Adjacency) : List PointId :=
  (List.range adjacency.size).flatMap fun id =>
    (List.range table.count).flatMap fun level =>
      match adjacency.list? id level with
      | none => []
      | some listed =>
          listed ++ List.replicate
            (capacity table.branching level - listed.length) noNeighbor

end Adjacency

end SmallWorld
