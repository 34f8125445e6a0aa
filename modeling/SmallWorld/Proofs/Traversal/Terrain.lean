import SmallWorld.Proofs.Scalar.Comparison
import SmallWorld.Traversal.Descent

/-!
# Terrains

A traversal that stays among points whose neighbours and distances exist
meets no fault.  What it sees of a layer is a *terrain*: for each point the
neighbours and the distance, as plain functions.  `settle_eq` and
`descend_eq` say that a descent over such layers always ends, and where.
-/

namespace SmallWorld

structure Terrain where
  adjacent : PointId → List PointId
  distance : PointId → Scalar

/-- Among the points inside, the layer has no faults, and these points are
not left along neighbours. -/
structure Layer.Presents (layer : Layer) (inside : PointId → Prop)
    (terrain : Terrain) : Prop where
  neighbors_eq : ∀ {id}, inside id →
    layer.neighbors id = .ok (terrain.adjacent id)
  distance_eq : ∀ {id}, inside id →
    layer.distance id = .ok (terrain.distance id)
  closed : ∀ {id neighbor}, inside id → neighbor ∈ terrain.adjacent id →
    inside neighbor

namespace Terrain

variable {terrain : Terrain}

def hit (terrain : Terrain) (id : PointId) : Hit where
  distance := terrain.distance id
  id

/-- The nearest of a point and some neighbours, the first of equally distant
ones. -/
def nearest (terrain : Terrain) (best : Hit) (neighbors : List PointId) :
    Hit :=
  neighbors.foldl (fun best neighbor =>
    if terrain.distance neighbor < best.distance then
      terrain.hit neighbor
    else
      best) best

/-- Move to nearer neighbours until none is nearer, but not more often than
`fuel` times. -/
def settle (terrain : Terrain) : (fuel : Nat) → Hit → Hit × Work
  | 0, best => (best, Work.zero)
  | fuel + 1, best =>
      let neighbors := terrain.adjacent best.id
      let pass : Work :=
        { distances := neighbors.length, visited := 0, hops := 1 }
      let next := terrain.nearest best neighbors
      if next.distance < best.distance then
        let (final, work) := terrain.settle fuel next
        (final, pass + work)
      else
        (best, pass)

/-- Whether a hit has the distance of its point. -/
def Marks (terrain : Terrain) (hit : Hit) : Prop :=
  hit = terrain.hit hit.id

theorem marks_hit (terrain : Terrain) (id : PointId) :
    terrain.Marks (terrain.hit id) :=
  rfl

/-- A pass stays where it is or ends at a neighbour. -/
theorem nearest_eq_or_mem (terrain : Terrain) (best : Hit)
    (neighbors : List PointId) :
    terrain.nearest best neighbors = best ∨
      ∃ neighbor ∈ neighbors,
        terrain.nearest best neighbors = terrain.hit neighbor := by
  induction neighbors generalizing best with
  | nil => exact Or.inl rfl
  | cons neighbor rest inductionHypothesis =>
      unfold nearest
      rw [List.foldl_cons]
      split
      · rcases inductionHypothesis (terrain.hit neighbor) with
          same | ⟨later, member, ends⟩
        · exact Or.inr ⟨neighbor, List.mem_cons_self, same⟩
        · exact Or.inr ⟨later, List.mem_cons_of_mem _ member, ends⟩
      · rcases inductionHypothesis best with same | ⟨later, member, ends⟩
        · exact Or.inl same
        · exact Or.inr ⟨later, List.mem_cons_of_mem _ member, ends⟩

section Ends

variable {inside : PointId → Prop}
  (closed : ∀ {id neighbor}, inside id → neighbor ∈ terrain.adjacent id →
    inside neighbor)
include closed

theorem nearest_ends {best : Hit} (start : inside best.id) :
    inside (terrain.nearest best (terrain.adjacent best.id)).id ∧
      (terrain.Marks best →
        terrain.Marks (terrain.nearest best (terrain.adjacent best.id))) := by
  rcases terrain.nearest_eq_or_mem best (terrain.adjacent best.id) with
    same | ⟨later, member, ends⟩
  · rw [same]
    exact ⟨start, id⟩
  · rw [ends]
    exact ⟨closed start member, fun _ => terrain.marks_hit later⟩

/-- A descent does not leave points that are not left along neighbours. -/
theorem settle_ends (fuel : Nat) {best : Hit} (start : inside best.id) :
    inside (terrain.settle fuel best).1.id ∧
      (terrain.Marks best → terrain.Marks (terrain.settle fuel best).1) := by
  induction fuel generalizing best with
  | zero => exact ⟨start, id⟩
  | succ fuel inductionHypothesis =>
      rw [settle]
      dsimp only
      split
      · have next := nearest_ends closed start
        obtain ⟨settled, marks⟩ := inductionHypothesis next.1
        exact ⟨settled, fun marked => marks (next.2 marked)⟩
      · exact ⟨start, id⟩

end Ends

end Terrain

namespace Layer

variable {layer : Layer} {inside : PointId → Prop} {terrain : Terrain}

theorem nearest_eq (presents : layer.Presents inside terrain) (best : Hit)
    {neighbors : List PointId}
    (neighborsInside : ∀ neighbor ∈ neighbors, inside neighbor) :
    layer.nearest best neighbors = .ok (terrain.nearest best neighbors) := by
  induction neighbors generalizing best with
  | nil => rfl
  | cons neighbor rest inductionHypothesis =>
      have further := fun best => inductionHypothesis best
        (fun later member => neighborsInside later
          (List.mem_cons_of_mem _ member))
      unfold nearest Terrain.nearest
      rw [presents.distance_eq (neighborsInside _ List.mem_cons_self),
        List.foldl_cons]
      change (if terrain.distance neighbor < best.distance then
          layer.nearest (terrain.hit neighbor) rest
        else layer.nearest best rest) = _
      split
      · exact further _
      · exact further _

theorem nearerCount_le (layer : Layer) (bound : Scalar) :
    layer.nearerCount bound ≤ layer.size := by
  unfold nearerCount
  exact List.countP_le_length.trans (Nat.le_of_eq List.length_range)

theorem settle_eq (presents : layer.Presents inside terrain) {fuel : Nat}
    {best : Hit} (start : inside best.id)
    (enough : layer.nearerCount best.distance < fuel) :
    layer.settle best = .ok (terrain.settle fuel best) := by
  induction fuel generalizing best with
  | zero => exact (Nat.not_lt_zero _ enough).elim
  | succ fuel inductionHypothesis =>
      have neighborsInside : ∀ neighbor ∈ terrain.adjacent best.id,
          inside neighbor := fun _ member => presents.closed start member
      have passed := nearest_eq presents best neighborsInside
      unfold settle Terrain.settle
      simp only [presents.neighbors_eq start]
      split
      · next fault failed => cases passed.symm.trans failed
      · next next_ ended =>
          obtain rfl : terrain.nearest best (terrain.adjacent best.id) =
              next_ := Except.ok.inj (passed.symm.trans ended)
          split
          · next nearer =>
              have fewer := nearerCount_lt_of_nearest passed nearer
              have next := Terrain.nearest_ends presents.closed start
              rw [inductionHypothesis next.1 (by omega)]
          · rfl

end Layer

def descendOver (terrain : Nat → Terrain) (fuel above : Nat) :
    (level : Nat) → Hit → Hit × Work
  | 0, best => (best, Work.zero)
  | level + 1, best =>
      if above < level + 1 then
        let (settled, work) := (terrain (level + 1)).settle fuel best
        let (final, further) := descendOver terrain fuel above level settled
        (final, work + further)
      else
        (best, Work.zero)

section Descend

variable (inside : Nat → PointId → Prop) {terrain : Nat → Terrain}
  (distance : PointId → Scalar) {above : Nat}
  (lower : ∀ {level level' id}, inside level id → level' ≤ level →
    inside level' id)
  (distances : ∀ level, (terrain level).distance = distance)
include lower distances

/-- A descent ends at a point of the lowest level it has been to. -/
theorem descendOver_ends (closed : ∀ {level id neighbor}, above < level →
      inside level id → neighbor ∈ (terrain level).adjacent id →
        inside level neighbor) (fuel : Nat) {level : Nat} (best : Hit)
    (start : inside level best.id)
    (marked : best.distance = distance best.id) :
    inside (min above level)
        (descendOver terrain fuel above level best).1.id ∧
      (descendOver terrain fuel above level best).1.distance =
        distance (descendOver terrain fuel above level best).1.id := by
  induction level generalizing best with
  | zero =>
      rw [Nat.min_zero]
      exact ⟨start, marked⟩
  | succ level inductionHypothesis =>
      rw [descendOver]
      split
      · next higher =>
          obtain ⟨settled, marks⟩ := (terrain (level + 1)).settle_ends
            (closed higher) fuel start
          have settledMarks : ((terrain (level + 1)).settle fuel
              best).1.distance =
                distance ((terrain (level + 1)).settle fuel best).1.id := by
            have := congrArg Hit.distance (marks (by
              rw [Terrain.Marks, Terrain.hit, distances, ← marked]))
            rwa [Terrain.hit, distances] at this
          obtain ⟨inside', marked'⟩ := inductionHypothesis _
            (lower settled (Nat.le_succ level)) settledMarks
          rw [Nat.min_eq_left (Nat.le_of_lt_succ higher)] at inside'
          rw [Nat.min_eq_left higher.le]
          exact ⟨inside', marked'⟩
      · next low =>
          rw [Nat.min_eq_right (Nat.not_lt.mp low)]
          exact ⟨start, marked⟩

theorem descend_eq (layer : Nat → Layer) {fuel : Nat}
    (presents : ∀ level, above < level →
      (layer level).Presents (inside level) (terrain level))
    (enough : ∀ level, (layer level).size < fuel) {level : Nat} (best : Hit)
    (start : inside level best.id)
    (marked : best.distance = distance best.id) :
    descend layer above level best =
        .ok (descendOver terrain fuel above level best) ∧
      inside (min above level)
        (descendOver terrain fuel above level best).1.id ∧
      (descendOver terrain fuel above level best).1.distance =
        distance (descendOver terrain fuel above level best).1.id := by
  refine ⟨?_, descendOver_ends inside distance lower distances
    (fun higher here member => (presents _ higher).closed here member) fuel
    best start marked⟩
  clear marked distances
  induction level generalizing best with
  | zero => rfl
  | succ level inductionHypothesis =>
      rw [descend, descendOver]
      split
      · next higher =>
          have settled := Layer.settle_eq (presents (level + 1) higher) start
            (((layer (level + 1)).nearerCount_le _).trans_lt (enough _))
          have ends := ((terrain (level + 1)).settle_ends
            (presents (level + 1) higher).closed fuel start).1
          rw [settled]
          simp only [bind, Except.bind,
            inductionHypothesis _ (lower ends (Nat.le_succ level))]
          rfl
      · rfl

end Descend

end SmallWorld
