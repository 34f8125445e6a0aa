import SmallWorld.GroundTruth
import SmallWorld.Proofs.Hit

/-!
# Exact answers and common points

An exact answer for all vectors has each of their numbers.  The number of true
neighbours found grows with the set of points found (`commonCount_le`).
-/

namespace SmallWorld

variable {query : Coordinates} {database : List Coordinates} {id count : Nat}

theorem map_id_sort_allHits_perm (query : Coordinates)
    (database : List Coordinates) :
    ((Hit.sort (allHits query database)).map Hit.id).Perm
      (List.range database.length) := by
  refine ((Hit.sort_perm _).map Hit.id).trans (List.Perm.of_eq ?_)
  rw [allHits, List.map_map]
  refine (List.map_congr_left fun _ _ => rfl).trans
    ((List.zipIdx_map_snd 0 database).trans ?_)
  exact List.range_eq_range'.symm

theorem lt_length_of_mem_exactIds
    (member : id ∈ exactIds database count query) : id < database.length := by
  unfold exactIds exactNearest at member
  rw [List.map_take] at member
  exact List.mem_range.mp ((map_id_sort_allHits_perm query
    database).mem_iff.mp (List.mem_of_mem_take member))

theorem mem_exactIds_length (inside : id < database.length) :
    id ∈ exactIds database database.length query := by
  have perm := map_id_sort_allHits_perm query database
  unfold exactIds exactNearest
  rw [List.map_take, List.take_of_length_le
    (perm.length_eq.trans List.length_range).le]
  exact perm.mem_iff.mpr (List.mem_range.mpr inside)

private theorem nodup_eraseDups {ids : List PointId} :
    ids.eraseDups.Nodup := by
  induction length : ids.length using Nat.strong_induction_on generalizing ids
  with
  | _ count inductionHypothesis =>
      cases ids with
      | nil => exact List.nodup_nil
      | cons id rest =>
          rw [List.eraseDups_cons, List.nodup_cons, List.mem_eraseDups]
          refine ⟨by simp, inductionHypothesis _ ?_ rfl⟩
          have := List.length_filter_le (fun other => !other == id) rest
          rw [List.length_cons] at length
          omega

theorem commonCount_le {truth found better : List PointId} {count : Nat}
    (common : ∀ id ∈ found.take count, id ∈ truth.take count →
      id ∈ better.take count) :
    commonCount truth found count ≤ commonCount truth better count := by
  unfold commonCount
  refine ((nodup_eraseDups.filter _).subperm fun id member => ?_).length_le
  rw [List.mem_filter, List.mem_eraseDups] at member ⊢
  exact ⟨common id member.1 (of_decide_eq_true member.2), member.2⟩

end SmallWorld
