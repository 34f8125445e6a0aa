/-!
# The work of a search
-/

namespace SmallWorld

/-- How much work traversals took: distances computed, points seen by beams
and runs followed. -/
structure Work where
  distances : Nat
  visited : Nat
  hops : Nat
  deriving DecidableEq, Repr

namespace Work

def zero : Work where
  distances := 0
  visited := 0
  hops := 0

def add (first second : Work) : Work where
  distances := first.distances + second.distances
  visited := first.visited + second.visited
  hops := first.hops + second.hops

instance : Add Work where
  add := add

@[simp]
theorem add_distances (first second : Work) :
    (first + second).distances = first.distances + second.distances :=
  rfl

@[simp]
theorem add_visited (first second : Work) :
    (first + second).visited = first.visited + second.visited :=
  rfl

@[simp]
theorem add_hops (first second : Work) :
    (first + second).hops = first.hops + second.hops :=
  rfl

theorem add_assoc (first second third : Work) :
    first + second + third = first + (second + third) := by
  change Work.mk _ _ _ = Work.mk _ _ _
  simp [Nat.add_assoc]

theorem add_zero (work : Work) : work + zero = work :=
  rfl

theorem zero_add (work : Work) : zero + work = work := by
  change Work.mk _ _ _ = work
  simp [zero]

end Work

end SmallWorld
