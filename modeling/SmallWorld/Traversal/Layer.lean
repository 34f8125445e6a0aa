import Std.Data.HashSet
import SmallWorld.Links

/-!
# Layers

A traversal for one query sees a level of the graph as a *layer*: the
neighbours of each point and the distance of each point to the query.  Both
are faults for numbers that are no points.

Traversals end because they count points down: those that have not been seen,
or those that are nearer than the best so far.  Either number falls if it
loses a point and gains none (`countP_lt_countP`).
-/

namespace SmallWorld

structure Layer where
  /-- The number of points. -/
  size : Nat
  /-- The neighbours of a point, in the order of their slots. -/
  neighbors : PointId → Except Fault (List PointId)
  /-- The distance of a point to the query. -/
  distance : PointId → Except Fault Scalar
  /-- Only points have a distance. -/
  lt_size : ∀ {id value}, distance id = .ok value → id < size

namespace Layer

/-- The layer of a level for a query, over stored vectors and neighbours. -/
def of (cloud : Cloud) (links : Links) (query : Coordinates) (level : Nat) :
    Layer where
  size := cloud.size
  neighbors id := links.neighbors id level
  distance id := cloud.distanceTo id query
  lt_size := Cloud.lt_size_of_distanceTo

end Layer

/-- Fewer elements satisfy the stronger of two tests if one of them satisfies
only the weaker one. -/
theorem countP_lt_countP {α : Type} {stronger weaker : α → Bool}
    {elements : List α}
    (weakens : ∀ element, stronger element = true → weaker element = true)
    {witness : α} (member : witness ∈ elements)
    (included : weaker witness = true) (excluded : stronger witness = false) :
    elements.countP stronger < elements.countP weaker := by
  obtain ⟨before, after, rfl⟩ := List.append_of_mem member
  have front : before.countP stronger ≤ before.countP weaker :=
    List.countP_mono_left fun element _ => weakens element
  have back : after.countP stronger ≤ after.countP weaker :=
    List.countP_mono_left fun element _ => weakens element
  rw [List.countP_append, List.countP_append,
    List.countP_cons_of_pos included,
    List.countP_cons_of_neg (Bool.eq_false_iff.mp excluded)]
  omega

/-- The number of points, out of the given number, that are not in a set. -/
def unseenCount (size : Nat) (seen : Std.HashSet PointId) : Nat :=
  (List.range size).countP fun id => !seen.contains id

/-- Seeing a point for the first time leaves one fewer. -/
theorem unseenCount_insert_lt {size : Nat} {seen : Std.HashSet PointId}
    {id : PointId} (fresh : seen.contains id = false) (inside : id < size) :
    unseenCount size (seen.insert id) < unseenCount size seen := by
  refine countP_lt_countP ?_ (List.mem_range.mpr inside) ?_ ?_
  · intro other unseen
    rw [Std.HashSet.contains_insert, Bool.not_or, Bool.and_eq_true] at unseen
    exact unseen.2
  · rw [fresh]
    rfl
  · rw [Std.HashSet.contains_insert_self]
    rfl

end SmallWorld
