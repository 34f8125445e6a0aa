import SmallWorld.Proofs.Index.Beams
import SmallWorld.Proofs.Traversal.Settling

/-!
# Descents

A descent settles on one level after the other.  It comes to an end on any
graph whose upper levels can be walked, and ends at a point of the lowest level
it has walked that is a local optimum there (`Walkable.descends`), so at a
point from which the levels below can be searched.
-/

namespace SmallWorld

/-- Whether a point can be reached from another one by going along the runs of
the levels from `level` down to the one above `above`. -/
inductive Links.LeadsDown (links : Links) (above : Nat) :
    (level : Nat) → PointId → PointId → Prop
  | stay {level : Nat} {id : PointId} (low : level ≤ above) :
      LeadsDown links above level id id
  | down {level : Nat} {first middle last : PointId} (high : above < level + 1)
      (along : links.LeadsTo (level + 1) first middle)
      (further : LeadsDown links above level middle last) :
      LeadsDown links above (level + 1) first last

/-- What a descent from `level` to the level above `above` ends at. -/
structure Descends (cloud : Cloud) (links : Links) (query : Coordinates)
    (above level : Nat) (start final : Hit) : Prop where
  /-- The final hit has the distance of its point. -/
  measured : cloud.distanceTo final.id query = .ok final.distance
  not_farther : final.distance ≤ start.distance
  path : links.LeadsDown above level start.id final.id
  /-- A descent that has walked any level ends at a point of the lowest one,
  and no neighbour that the point has there is nearer. -/
  optimum : above < level → links.Reaches (above + 1) final.id ∧
    ∃ neighbors, links.neighbors final.id (above + 1) = .ok neighbors ∧
      ∀ neighbor ∈ neighbors, ∃ distance,
        cloud.distanceTo neighbor query = .ok distance ∧
          ¬ distance < final.distance ∧ final.distance ≤ distance
  /-- A descent that has walked no level ends where it starts. -/
  stays : level ≤ above → final = start

variable {cloud : Cloud} {links : Links} {query : Coordinates}
  {above level : Nat} {start middle final : Hit}

theorem Cloud.le_of_not_lt {first second : PointId} {near far : Scalar}
    (firstMeasured : cloud.distanceTo first query = .ok near)
    (secondMeasured : cloud.distanceTo second query = .ok far)
    (notLess : ¬ far < near) : near ≤ far := by
  rw [(distanceTo_compare secondMeasured firstMeasured).1] at notLess
  exact (distanceTo_compare firstMeasured secondMeasured).2.mpr
    (not_lt.mp notLess)

namespace Descends

theorem of_le (low : level ≤ above)
    (measured : cloud.distanceTo start.id query = .ok start.distance) :
    Descends cloud links query above level start start where
  measured
  not_farther := Cloud.le_of_not_lt measured measured (Scalar.lt_irrefl _)
  path := .stay low
  optimum high := absurd low (Nat.not_le.mpr high)
  stays _ := rfl

theorem settled (high : above < level + 1)
    (measured : cloud.distanceTo start.id query = .ok start.distance)
    (reaches : links.Reaches (level + 1) middle.id)
    (settles : (Layer.of cloud links query (level + 1)).Settles start middle)
    (further : Descends cloud links query above level middle final) :
    Descends cloud links query above (level + 1) start final where
  measured := further.measured
  not_farther := by
    rcases settles.moved with rfl | ⟨marked, less⟩
    · exact further.not_farther
    · have lower := (Cloud.distanceTo_compare further.measured marked).2.mp
        further.not_farther
      have higher := (Cloud.distanceTo_compare marked measured).1.mp less
      exact (Cloud.distanceTo_compare further.measured measured).2.mpr
        (lower.trans higher.le)
  path := .down high settles.path further.path
  optimum _ := by
    rcases Nat.lt_or_eq_of_le (Nat.le_of_lt_succ high) with higher | rfl
    · exact further.optimum higher
    · obtain rfl := further.stays (Nat.le_refl _)
      obtain ⟨neighbors, listed, far⟩ := settles.optimum
      refine ⟨reaches, neighbors, listed, fun neighbor member => ?_⟩
      obtain ⟨distance, marked, notLess⟩ := far neighbor member
      exact ⟨distance, marked, notLess,
        Cloud.le_of_not_lt further.measured marked notLess⟩
  stays low := absurd low (Nat.not_le.mpr high)

end Descends

namespace Walkable

theorem exists_settled (walkable : Walkable cloud links query level)
    (reaches : links.Reaches level start.id)
    (measured : cloud.distanceTo start.id query = .ok start.distance) :
    ∃ final work,
      (Layer.of cloud links query level).settle start = .ok (final, work) ∧
      links.Reaches level final.id ∧
      cloud.distanceTo final.id query = .ok final.distance ∧
      (Layer.of cloud links query level).Settles start final := by
  have seeded : Seeded cloud links query level [start] := fun seed listed =>
    List.mem_singleton.mp listed ▸ ⟨reaches, measured⟩
  have settled := Layer.settle_eq (walkable.presents seeded.onLevel)
    ⟨start, List.mem_singleton_self start, .refl⟩ (Nat.lt_succ_self _)
  have settles := Layer.settles_of_settle settled
  refine ⟨_, _, settled, walkable.reaches seeded.onLevel
    ⟨start, List.mem_singleton_self start, settles.path⟩, ?_, settles⟩
  rcases settles.moved with same | ⟨marked, _⟩
  · rw [same]
    exact measured
  · exact marked

/-- A descent from a point of its highest level comes to an end.  It ends at a
hit that is not farther, to which the levels lead that it has walked, and that
is a local optimum of the lowest of these levels. -/
theorem descends (walkable : ∀ walked, above < walked → walked ≤ level →
      Walkable cloud links query walked)
    (reaches : links.Reaches level start.id)
    (measured : cloud.distanceTo start.id query = .ok start.distance) :
    ∃ final work,
      descend (Layer.of cloud links query) above level start =
        .ok (final, work) ∧
      Descends cloud links query above level start final := by
  induction level generalizing start with
  | zero =>
      exact ⟨start, Work.zero, rfl, .of_le (Nat.zero_le above) measured⟩
  | succ level inductionHypothesis =>
      rw [descend]
      split
      · next high =>
          obtain ⟨middle, work, settled, middleReaches, marked, settles⟩ :=
            (walkable (level + 1) high (Nat.le_refl _)).exists_settled reaches
              measured
          obtain ⟨final, further, descended, ends⟩ := inductionHypothesis
            (fun walked higher below => walkable walked higher
              (Nat.le_succ_of_le below))
            (middleReaches.of_le (Nat.le_succ level)) marked
          refine ⟨final, work + further, ?_,
            ends.settled high measured middleReaches settles⟩
          rw [settled, ok_bind]
          dsimp only
          rw [descended, ok_bind]
          rfl
      · next low =>
          exact ⟨start, Work.zero, rfl, .of_le (Nat.not_lt.mp low) measured⟩

end Walkable

theorem Index.line_descends : ∃ line : Index (Cycle Float),
    (∀ walked, 0 < walked → walked ≤ 1 →
      Walkable line.cloud line.links [six] walked) ∧
    line.links.Reaches 1 (line.cloud.hit [six] 0).id ∧
    line.cloud.distanceTo (line.cloud.hit [six] 0).id [six] =
      .ok (line.cloud.hit [six] 0).distance ∧
    ∃ final work,
      descend (Layer.of line.cloud line.links [six]) 0 1
        (line.cloud.hit [six] 0) = .ok (final, work) ∧
      Descends line.cloud line.links [six] 0 1 (line.cloud.hit [six] 0)
        final := by
  obtain ⟨line, isLine⟩ := exists_isLine
  have walkable : ∀ walked, 0 < walked → walked ≤ 1 →
      Walkable line.cloud line.links [six] walked :=
    fun walked _ _ => isLine.sound.walkable isLine.acceptable_six walked
  have reaches : line.links.Reaches 1 0 :=
    ⟨1, by rw [isLine.levels_eq]; rfl, Nat.le_refl 1⟩
  have measured := isLine.sound.cloud.distanceTo_eq isLine.acceptable_six
    (isLine.sound.lt_size reaches)
  exact ⟨line, walkable, reaches, measured,
    Walkable.descends walkable reaches measured⟩

end SmallWorld
