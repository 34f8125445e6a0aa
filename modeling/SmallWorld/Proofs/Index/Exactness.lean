import SmallWorld.GroundTruth
import SmallWorld.Proofs.Index.Outline
import SmallWorld.Proofs.Index.Search
import SmallWorld.Proofs.Links.Paths

/-!
# Exact searches

A query reaches the points to which the runs of level 0 lead from the end of
its descent.  If the beam has room for all of them, the answer consists of
the nearest of them; if these are all points, it is the exact one.
-/

namespace SmallWorld

theorem Cloud.IsSound.allHits_eq {cloud : Cloud} (sound : cloud.IsSound)
    {query : Coordinates} (acceptable : Acceptable cloud.dimension query) :
    allHits query cloud.vectors.toList =
      (List.range cloud.size).map (cloud.hit query) := by
  apply List.ext_getElem?
  intro position
  unfold allHits
  rw [List.getElem?_map, List.getElem?_map, List.getElem?_zipIdx,
    Array.getElem?_toList]
  by_cases inside : position < cloud.size
  · have stored := sound.acceptable_getD inside
    rw [List.getElem?_range inside, Array.getElem?_eq_getElem inside]
    have vector : cloud.vectors[position] =
        cloud.vectors.getD position [] := by
      rw [Array.getD_eq_getD_getElem?, Array.getElem?_eq_getElem inside]
      rfl
    simp only [Option.map_some, Nat.zero_add, vector, Cloud.hit, Cloud.reach]
    rw [acceptable.distance_comm sound.dimension_pos sound.machine stored]
  · rw [List.getElem?_eq_none (by simpa using inside),
      Array.getElem?_eq_none (Nat.not_lt.mp inside)]
    rfl

namespace Index

variable {σ : Type} {index : Index σ} {runs : Runs} {query : Coordinates}
  {entryPoint : PointId}

/-- A beam with room for its whole region keeps all of it. -/
theorem Sound.searchWidth_eq_of_wide (sound : index.Sound runs)
    (acceptable : Acceptable index.cloud.dimension query)
    (entry : index.entryPoint = some entryPoint) {region : List PointId}
    (distinct : region.Nodup)
    (region_iff : ∀ id, id ∈ region ↔ index.links.LeadsTo 0
      (index.descended runs query entryPoint).1.id id)
    {count width : Nat} (countPos : 1 ≤ count) (widthPos : 1 ≤ width)
    (wide : region.length ≤ max width count) :
    index.searchWidth query count width =
      .ok ((Hit.sort (region.map (index.cloud.hit query))).take count) := by
  obtain ⟨_, reaches, marked⟩ :=
    (sound.navigable acceptable entry).descent_eq
  obtain ⟨_, _, _, stopped⟩ :=
    (sound.navigable acceptable entry).beam_eq (max width count)
  have kept : (index.course runs query entryPoint (max width count)).kept =
      Hit.sort (region.map (index.cloud.hit query)) := by
    unfold course Terrain.sweep at stopped ⊢
    rw [marked] at stopped ⊢
    exact Sweep.kept_eq_of_wide (sound.comparable acceptable 0)
      (fun reaches member => sound.proper.reaches reaches member) reaches
      distinct
      (fun id => (region_iff id).trans (sound.represents.leadsTo_iff
        sound.proper reaches (index.cloud.reach query)))
      wide stopped
  rw [sound.searchWidth_eq acceptable entry countPos widthPos, kept]

theorem Sound.sort_eq_exactNearest (sound : index.Sound runs)
    (acceptable : Acceptable index.cloud.dimension query)
    {region : List PointId} (distinct : region.Nodup)
    (all : ∀ id, id ∈ region ↔ id < index.size) (count : Nat) :
    (Hit.sort (region.map (index.cloud.hit query))).take count =
      exactNearest query index.cloud.vectors.toList count := by
  have perm : region.Perm (List.range index.cloud.size) :=
    (List.perm_ext_iff_of_nodup distinct List.nodup_range).mpr
      fun id => (all id).trans List.mem_range.symm
  unfold exactNearest
  rw [sound.cloud.allHits_eq acceptable, Hit.sort_eq_of_perm (perm.map _)]

/-- A query reaches a region of the index.  If the beam has room for the
region, the answer is made of its nearest points, and if the region is the
whole index, the answer is exact. -/
theorem Reachable.exact_on_region [UniformSource σ]
    (reachable : index.Reachable) (nonempty : 0 < index.size)
    (accepted : requireAcceptable index.dimension query = .ok ()) :
    ∃ (start : Hit) (work : Work) (region : List PointId),
      index.descent query = .ok (start, work) ∧ region.Nodup ∧
      (∀ id, id ∈ region ↔ index.links.LeadsTo 0 start.id id) ∧
      ∀ count width, 1 ≤ count → 1 ≤ width →
        region.length ≤ max width count →
        index.searchWidth query count width =
            .ok ((Hit.sort (region.map (index.cloud.hit query))).take
              count) ∧
          ((∀ id < index.size, id ∈ region) →
            index.searchWidth query count width =
              .ok (exactNearest query index.cloud.vectors.toList count)) := by
  obtain ⟨runs, sound⟩ := reachable.sound
  have acceptable := requireAcceptable_eq_ok_iff.mp accepted
  obtain ⟨entryPoint, entry⟩ := sound.exists_entry nonempty
  obtain ⟨descended, reaches, _⟩ :=
    (sound.navigable acceptable entry).descent_eq
  obtain ⟨region, distinct, region_iff⟩ :=
    sound.represents.exists_region sound.proper reaches
  refine ⟨_, _, region, descended, distinct, region_iff, ?_⟩
  intro count width countPos widthPos wide
  have answer := sound.searchWidth_eq_of_wide acceptable entry distinct
    region_iff countPos widthPos wide
  refine ⟨answer, fun whole => ?_⟩
  rw [answer, sound.sort_eq_exactNearest acceptable distinct]
  refine fun id => ⟨fun member => ?_, whole id⟩
  exact sound.reaches_zero.mp (((region_iff id).mp member).reaches
    sound.represents sound.proper reaches)

section Line

variable {line : Index (Cycle Float)}

theorem IsLine.course_eq (isLine : IsLine line) (query : Coordinates)
    (entryPoint : PointId) (width : Nat) :
    line.course lineRuns query entryPoint width =
      lineOutline.course lineRuns query entryPoint width :=
  congrArg (fun outline => outline.course lineRuns query entryPoint width)
    isLine.outline_eq

theorem IsLine.descended_eq (isLine : IsLine line) (query : Coordinates)
    (entryPoint : PointId) :
    line.descended lineRuns query entryPoint =
      lineOutline.descended lineRuns query entryPoint :=
  congrArg (fun outline => outline.descended lineRuns query entryPoint)
    isLine.outline_eq

end Line

theorem line_exact_on_region : ∃ line : Index (Cycle Float),
    line.Reachable ∧ 0 < line.size ∧
    requireAcceptable line.dimension [Scalar.one] = .ok () ∧
    ∃ (start : Hit) (work : Work) (region : List PointId),
      line.descent [Scalar.one] = .ok (start, work) ∧ region.Nodup ∧
      (∀ id, id ∈ region ↔ line.links.LeadsTo 0 start.id id) ∧
      ∀ count width, 1 ≤ count → 1 ≤ width →
        region.length ≤ max width count →
        line.searchWidth [Scalar.one] count width =
            .ok ((Hit.sort (region.map
              (line.cloud.hit [Scalar.one]))).take count) ∧
          ((∀ id < line.size, id ∈ region) →
            line.searchWidth [Scalar.one] count width =
              .ok (exactNearest [Scalar.one] line.cloud.vectors.toList
                count)) := by
  obtain ⟨line, isLine⟩ := exists_isLine
  have accepted := isLine.accepted [Scalar.one] (by decide +kernel)
  exact ⟨line, isLine.reachable, isLine.size_pos, accepted,
    isLine.reachable.exact_on_region isLine.size_pos accepted⟩

end Index

end SmallWorld
