import SmallWorld.Proofs.Links.Placement
import SmallWorld.Proofs.Traversal.Region

/-!
# Paths along runs

The runs of a level lead from point to point.  What they lead to stays on the
level, and is what the terrain of the level leads to.
-/

namespace SmallWorld

/-- Whether a point can be reached from another one along the runs of a
level. -/
def Links.LeadsTo (links : Links) (level : Nat) : PointId → PointId → Prop :=
  Relation.ReflTransGen fun id neighbor =>
    ∃ neighbors, links.neighbors id level = .ok neighbors ∧
      neighbor ∈ neighbors

theorem exists_listing {property : PointId → Prop} {size : Nat}
    (bounded : ∀ id, property id → id < size) :
    ∃ ids : List PointId, ids.Nodup ∧ ∀ id, id ∈ ids ↔ property id := by
  classical
  refine ⟨(List.range size).filter fun id => decide (property id),
    List.nodup_range.filter _, fun id => ?_⟩
  rw [List.mem_filter, List.mem_range, decide_eq_true_iff]
  exact and_iff_right_of_imp (bounded id)

namespace Links

variable {links : Links} {runs : Runs} {level : Nat} {start id : PointId}

theorem LeadsTo.reaches (represents : links.Represents runs)
    (proper : runs.Proper links.Reaches)
    (startReaches : links.Reaches level start)
    (path : links.LeadsTo level start id) : links.Reaches level id := by
  induction path with
  | refl => exact startReaches
  | tail _ edge inductionHypothesis =>
      obtain ⟨neighbors, listed, member⟩ := edge
      rw [represents.neighbors_eq inductionHypothesis] at listed
      cases listed
      exact proper.reaches inductionHypothesis member

/-- Where runs only gain neighbours, they lead at least as far as before. -/
theorem LeadsTo.of_subset {links' : Links} {runs' : Runs}
    (represents : links.Represents runs) (proper : runs.Proper links.Reaches)
    (represents' : links'.Represents runs')
    (reaches_of : ∀ {id}, links.Reaches level id → links'.Reaches level id)
    (gained : ∀ {id}, links.Reaches level id →
      runs id level ⊆ runs' id level)
    (startReaches : links.Reaches level start)
    (path : links.LeadsTo level start id) :
    links'.LeadsTo level start id := by
  induction path with
  | refl => exact .refl
  | tail earlier edge inductionHypothesis =>
      have reaches := LeadsTo.reaches represents proper startReaches earlier
      obtain ⟨neighbors, listed, member⟩ := edge
      rw [represents.neighbors_eq reaches] at listed
      cases listed
      exact inductionHypothesis.tail
        ⟨_, represents'.neighbors_eq (reaches_of reaches),
          gained reaches member⟩

theorem Represents.exists_region (represents : links.Represents runs)
    (proper : runs.Proper links.Reaches)
    (startReaches : links.Reaches level start) :
    ∃ region : List PointId, region.Nodup ∧
      ∀ id, id ∈ region ↔ links.LeadsTo level start id :=
  exists_listing fun _ path =>
    (path.reaches represents proper startReaches).lt_size

theorem Represents.leadsTo_iff (represents : links.Represents runs)
    (proper : runs.Proper links.Reaches)
    (startReaches : links.Reaches level start)
    (distance : PointId → Scalar) :
    links.LeadsTo level start id ↔
      (runs.terrain distance level).LeadsTo start id := by
  constructor
  · intro path
    induction path with
    | refl => exact .refl
    | tail earlier edge inductionHypothesis =>
        obtain ⟨neighbors, listed, member⟩ := edge
        rw [represents.neighbors_eq
          (LeadsTo.reaches represents proper startReaches earlier)] at listed
        cases listed
        exact inductionHypothesis.tail member
  · intro path
    induction path with
    | refl => exact .refl
    | tail _ edge inductionHypothesis =>
        have reaches := LeadsTo.reaches represents proper startReaches
          inductionHypothesis
        exact inductionHypothesis.tail
          ⟨_, represents.neighbors_eq reaches, edge⟩

end Links

end SmallWorld
