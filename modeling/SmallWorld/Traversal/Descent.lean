import SmallWorld.Hit
import SmallWorld.Traversal.Layer
import SmallWorld.Work

/-!
# Greedy descent

On its way down through the upper levels a search keeps a single point, the
nearest one so far.  At each level it moves to nearer neighbours until no
neighbour is nearer.  Every move makes the distance smaller and there are
finitely many points, so each level comes to an end.
-/

namespace SmallWorld

namespace Layer

/-- The nearest of a point and some neighbours, measured one after the other:
a neighbour takes over when it is strictly nearer than the best so far. -/
def nearest (layer : Layer) : Hit → List PointId → Except Fault Hit
  | best, [] => .ok best
  | best, neighbor :: rest => do
      let distance ← layer.distance neighbor
      if distance < best.distance then
        layer.nearest { distance, id := neighbor } rest
      else
        layer.nearest best rest

def isNearer (layer : Layer) (bound : Scalar) (id : PointId) : Bool :=
  match layer.distance id with
  | .ok value => decide (value < bound)
  | .error _ => false

def nearerCount (layer : Layer) (bound : Scalar) : Nat :=
  (List.range layer.size).countP (layer.isNearer bound)

/-- Unless it stays where it is, a pass ends at a point that was measured. -/
private theorem nearest_eq_or_measured {layer : Layer} {best result : Hit}
    {neighbors : List PointId}
    (passed : layer.nearest best neighbors = .ok result) :
    result = best ∨ layer.distance result.id = .ok result.distance := by
  induction neighbors generalizing best with
  | nil =>
      cases passed
      exact Or.inl rfl
  | cons neighbor rest inductionHypothesis =>
      unfold nearest at passed
      cases measured : layer.distance neighbor with
      | error fault =>
          rw [measured] at passed
          cases passed
      | ok distance =>
          rw [measured] at passed
          change (if distance < best.distance then
              layer.nearest { distance, id := neighbor } rest
            else layer.nearest best rest) = .ok result at passed
          split at passed
          · rcases inductionHypothesis passed with equal | later
            · subst equal
              exact Or.inr measured
            · exact Or.inr later
          · exact inductionHypothesis passed

/-- A nearer point has fewer points nearer than itself. -/
private theorem nearerCount_lt_of_measured {layer : Layer} {id : PointId}
    {distance bound : Scalar}
    (measured : layer.distance id = .ok distance)
    (nearer : distance < bound) :
    layer.nearerCount distance < layer.nearerCount bound := by
  refine countP_lt_countP ?_
    (List.mem_range.mpr (layer.lt_size measured)) ?_ ?_
  · intro other otherNearer
    unfold isNearer at otherNearer ⊢
    cases found : layer.distance other with
    | error fault => simp [found] at otherNearer
    | ok value =>
        simp only [found, decide_eq_true_eq] at otherNearer ⊢
        exact Scalar.lt_trans otherNearer nearer
  · simp only [isNearer, measured, decide_eq_true_eq]
    exact nearer
  · simp only [isNearer, measured, decide_eq_false_iff_not]
    exact Scalar.lt_irrefl distance

/-- A pass that ends nearer to the query leaves fewer points to move to. -/
theorem nearerCount_lt_of_nearest {layer : Layer} {best next : Hit}
    {neighbors : List PointId}
    (passed : layer.nearest best neighbors = .ok next)
    (nearer : next.distance < best.distance) :
    layer.nearerCount next.distance < layer.nearerCount best.distance := by
  rcases nearest_eq_or_measured passed with equal | measured
  · rw [equal] at nearer
    exact (Scalar.lt_irrefl _ nearer).elim
  · exact nearerCount_lt_of_measured measured nearer

/-- Move to nearer neighbours until none is nearer.  Each pass measures all
neighbours of the point it starts from. -/
def settle (layer : Layer) (best : Hit) : Except Fault (Hit × Work) :=
  match layer.neighbors best.id with
  | .error fault => .error fault
  | .ok neighbors =>
      let pass : Work :=
        { distances := neighbors.length, visited := 0, hops := 1 }
      match _ : layer.nearest best neighbors with
      | .error fault => .error fault
      | .ok next =>
          if _ : next.distance < best.distance then
            match layer.settle next with
            | .error fault => .error fault
            | .ok (final, work) => .ok (final, pass + work)
          else
            .ok (best, pass)
termination_by layer.nearerCount best.distance
decreasing_by
  exact nearerCount_lt_of_nearest ‹_› ‹_›

end Layer

/-- Settle on each level from `level` down to the one above `above`, and
return the point that is nearest in the end. -/
def descend (layer : Nat → Layer) (above : Nat) :
    (level : Nat) → Hit → Except Fault (Hit × Work)
  | 0, best => .ok (best, Work.zero)
  | level + 1, best =>
      if above < level + 1 then do
        let (settled, work) ← (layer (level + 1)).settle best
        let (final, further) ← descend layer above level settled
        pure (final, work + further)
      else
        .ok (best, Work.zero)

end SmallWorld
