import Mathlib.Logic.Relation
import SmallWorld.Proofs.Traversal.Invariant

/-!
# Sweeps that are wide enough

A sweep with room for every point that it can reach loses none of them: it
ends when it has met the whole region of its start, and keeps all of it.
-/

namespace SmallWorld

/-- Whether a point can be reached from another one along neighbours. -/
def Terrain.LeadsTo (terrain : Terrain) : PointId → PointId → Prop :=
  Relation.ReflTransGen fun id neighbor => neighbor ∈ terrain.adjacent id

namespace Sweep

variable {terrain : Terrain} {inside : PointId → Prop} {width : Nat}
  {start : PointId}

theorem seed_mem_seen (width : Nat) {seeds : List Hit} {seed : Hit}
    (listed : seed ∈ seeds) : seed.id ∈ (ofSeeds width seeds).seen := by
  have grown : ∀ (seeds : List Hit) (sweep : Sweep),
      sweep.seen ⊆ (seeds.foldl (Sweep.seed width) sweep).seen ∧
        ∀ hit ∈ seeds, hit.id ∈
          (seeds.foldl (Sweep.seed width) sweep).seen := by
    intro seeds
    induction seeds with
    | nil => exact fun sweep => ⟨List.Subset.refl _, nofun⟩
    | cons first rest inductionHypothesis =>
        intro sweep
        obtain ⟨kept, later⟩ := inductionHypothesis (sweep.seed width first)
        have here : first.id ∈ (sweep.seed width first).seen ∧
            sweep.seen ⊆ (sweep.seed width first).seen := by
          unfold Sweep.seed
          split
          · next known => exact ⟨known, List.Subset.refl _⟩
          · exact ⟨List.mem_cons_self, List.subset_cons_self _ _⟩
        refine ⟨List.Subset.trans here.2 kept, fun hit member => ?_⟩
        rcases List.mem_cons.mp member with rfl | inRest
        · exact kept here.1
        · exact later hit inRest
  exact (grown seeds empty).2 seed listed

namespace Sound

variable {sweep : Sweep}

theorem hit_mem_kept (sound : sweep.Sound terrain inside width)
    (few : sweep.seen.length ≤ width) {id : PointId}
    (seen : id ∈ sweep.seen) : terrain.hit id ∈ sweep.kept := by
  by_contra dropped
  have full := sound.length_eq_of_notMem seen dropped
  have fewer := sound.length_lt_of_notMem seen dropped
  omega

/-- A sweep that has room for all points it has seen has not stopped before
the end of any path: along the path every hit is kept, so it has been
closed. -/
theorem mem_seen_of_leadsTo (sound : sweep.Sound terrain inside width)
    (comparable : terrain.Comparable inside)
    (covered : sweep.Covered terrain fun _ => False)
    (stopped : sweep.stopped width = true)
    (few : sweep.seen.length ≤ width) {id : PointId}
    (startSeen : start ∈ sweep.seen) (path : terrain.LeadsTo start id) :
    id ∈ sweep.seen := by
  induction path with
  | refl => exact startSeen
  | tail _ edge inductionHypothesis =>
      exact sound.closed_of_stopped comparable covered stopped
        (sound.hit_mem_kept few inductionHypothesis) _ edge

end Sound

/-- What a sweep keeps if there is room for its whole region. -/
theorem kept_eq_of_wide (comparable : terrain.Comparable inside)
    (closed : ∀ {id neighbor}, inside id → neighbor ∈ terrain.adjacent id →
      inside neighbor) (startInside : inside start)
    {region : List PointId} (distinct : region.Nodup)
    (region_iff : ∀ id, id ∈ region ↔ terrain.LeadsTo start id)
    (wide : region.length ≤ width) {count : Nat}
    (stopped : ((ofSeeds width [terrain.hit start]).advance terrain width
      count).stopped width = true) :
    ((ofSeeds width [terrain.hit start]).advance terrain width count).kept =
      Hit.sort (terrain.hits region) := by
  have regionInside : ∀ {id}, id ∈ region → inside id := by
    intro id member
    have path := (region_iff id).mp member
    induction path with
    | refl => exact startInside
    | tail earlier edge inductionHypothesis =>
        exact closed (inductionHypothesis ((region_iff _).mpr earlier)) edge
  have comparable' : terrain.Comparable (· ∈ region) :=
    fun first second => comparable (regionInside first) (regionInside second)
  have seeded : (ofSeeds width [terrain.hit start]).Sound terrain
      (· ∈ region) width := Sound.ofSeeds
    (fun hit member => List.mem_singleton.mp member ▸
      terrain.marks_hit start)
    (fun hit member => List.mem_singleton.mp member ▸
      (region_iff start).mpr .refl)
  have sound := seeded.advance comparable'
    (fun member edge => (region_iff _).mpr
      (((region_iff _).mp member).tail edge)) count
  have covered : ((ofSeeds width [terrain.hit start]).advance terrain width
      count).Covered terrain fun _ => False :=
    (Covered.ofSeeds [terrain.hit start]).advance count
  have startSeen : start ∈ ((ofSeeds width [terrain.hit start]).advance
      terrain width count).seen := (before_advance _ count).seen_suffix.subset
        (seed_mem_seen width (List.mem_singleton_self (terrain.hit start)))
  generalize (ofSeeds width [terrain.hit start]).advance terrain width count =
    sweep at *
  have few : sweep.seen.length ≤ width :=
    (sound.seen_nodup.subperm sound.seen_inside).length_le.trans wide
  have whole : ∀ id ∈ region, id ∈ sweep.seen := fun id member =>
    sound.mem_seen_of_leadsTo comparable' covered stopped few startSeen
      ((region_iff id).mp member)
  have samePoints : sweep.seen.Perm region :=
    (List.perm_ext_iff_of_nodup sound.seen_nodup distinct).mpr fun id =>
      ⟨sound.seen_inside id, whole id⟩
  have sameHits : sweep.kept.Perm (terrain.hits sweep.seen) := by
    refine (List.perm_ext_iff_of_nodup sound.kept_nodup
      (sound.seen_nodup.map terrain.hit_injective)).mpr fun hit => ?_
    refine ⟨sound.kept_seen hit, fun member => ?_⟩
    obtain ⟨seen, marked⟩ := Terrain.mem_hits.mp member
    rw [marked]
    exact sound.hit_mem_kept few seen
  have sorted : Hit.sort sweep.kept = Hit.sort (terrain.hits region) :=
    Hit.sort_eq_of_perm (sameHits.trans (samePoints.map terrain.hit))
  rwa [Hit.sort_of_ordered sound.kept_ordered] at sorted

end Sweep

end SmallWorld
