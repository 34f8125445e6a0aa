import SmallWorld.Index.Audit
import SmallWorld.Proofs.GroundTruth
import SmallWorld.Proofs.Index.Exactness
import SmallWorld.Proofs.Index.Outline
import SmallWorld.Proofs.Links.Reach

/-!
# Connectivity and exact answers

The connectivity of a level counts the points to which its runs lead from the
entry point.  A query on level 0 starts from the end of its descent instead,
and runs are not symmetric: a run that is full drops neighbours which still
list its point.  So a connected index answers exactly if, and only if, the
runs lead back from there to the entry point
(`Reachable.exact_iff_leadsTo_entry`).
-/

namespace SmallWorld.Index

variable {σ : Type} {index : Index σ} {runs : Runs} {query : Coordinates}
  {entryPoint : PointId}

theorem Sound.connectivity_eq (sound : index.Sound runs)
    (entry : index.entryPoint = some entryPoint) {level : Nat}
    (below : level ≤ index.topLevel) :
    ∃ region : List PointId, region.Nodup ∧
      (∀ id, id ∈ region ↔ index.links.LeadsTo level entryPoint id) ∧
      index.connectivity level = .ok (region.length,
        index.links.levels.toList.countP (fun own => level ≤ own) -
          region.length) := by
  have entryReaches := (sound.entry_reaches entry).of_le below
  obtain ⟨met, reachable, met_iff⟩ :=
    sound.represents.reachable_eq sound.proper entryReaches
  refine ⟨met.toList, ?_, fun id => ?_, ?_⟩
  · exact Std.HashSet.distinct_toList.imp fun different => by
      simpa using different
  · rw [Std.HashSet.mem_toList, met_iff]
  · simp only [connectivity, entry, Nat.not_lt.mpr below, if_false, reachable,
      ok_bind, Std.HashSet.length_toList]
    rfl

theorem Sound.leadsTo_of_connected (sound : index.Sound runs)
    (entry : index.entryPoint = some entryPoint)
    (connected : index.connectivity 0 = .ok (index.size, 0)) {id : PointId}
    (inside : id < index.size) : index.links.LeadsTo 0 entryPoint id := by
  obtain ⟨region, distinct, region_iff, counted⟩ :=
    sound.connectivity_eq entry (Nat.zero_le index.topLevel)
  rw [connected] at counted
  have size : index.size = region.length :=
    congrArg Prod.fst (Except.ok.inj counted)
  have entryReaches :=
    (sound.entry_reaches entry).of_le (Nat.zero_le index.topLevel)
  have all : region ⊆ List.range index.size := fun other member =>
    List.mem_range.mpr (sound.reaches_zero.mp
      (((region_iff other).mp member).reaches sound.represents sound.proper
        entryReaches))
  have perm : region.Perm (List.range index.size) :=
    (distinct.subperm all).perm_of_length_le
      (by rw [List.length_range, size])
  exact (region_iff id).mp (perm.mem_iff.mpr (List.mem_range.mpr inside))

/-- A beam as wide as the index gives the exact answer if, and only if, it can
reach all of it. -/
theorem Sound.searchWidth_eq_exact_iff (sound : index.Sound runs)
    (acceptable : Acceptable index.cloud.dimension query)
    (entry : index.entryPoint = some entryPoint) {count width : Nat}
    (countPos : 1 ≤ count) (widthPos : 1 ≤ width)
    (wide : index.size ≤ width) :
    index.searchWidth query count width =
        .ok (exactNearest query index.cloud.vectors.toList count) ↔
      ∀ id ∈ exactIds index.cloud.vectors.toList count query,
        index.links.LeadsTo 0 (index.descended runs query entryPoint).1.id
          id := by
  obtain ⟨_, reaches, _⟩ :=
    (sound.navigable acceptable entry).descent_eq
  obtain ⟨region, distinct, region_iff⟩ :=
    sound.represents.exists_region sound.proper reaches
  have regionInside : region ⊆ List.range index.size := fun id member =>
    List.mem_range.mpr (sound.reaches_zero.mp
      (((region_iff id).mp member).reaches sound.represents sound.proper
        reaches))
  have few : region.length ≤ max width count := by
    have := (distinct.subperm regionInside).length_le
    rw [List.length_range] at this
    exact (this.trans wide).trans (le_max_left _ _)
  have exact_ := sound.sort_eq_exactNearest acceptable List.nodup_range
    (fun _ => List.mem_range) count
  have sublist := (index.terrain runs query 0).sort_hits_sublist distinct
    regionInside
  have allDistinct : (Hit.sort ((index.terrain runs query 0).hits
      (List.range index.size))).Nodup :=
    (Hit.sort_perm _).nodup_iff.mpr
      (List.nodup_range.map (index.terrain runs query 0).hit_injective)
  rw [sound.searchWidth_eq_of_wide acceptable entry distinct region_iff
    countPos widthPos few, exactIds, ← exact_, Except.ok.injEq,
    List.forall_mem_map]
  refine (Hit.take_eq_iff_of_sublist (Hit.ordered_sort _) allDistinct sublist
    count).trans (forall₂_congr fun hit first => ?_)
  have marked := (Terrain.mem_hits.mp
    ((Hit.sort_perm _).mem_iff.mp (List.mem_of_mem_take first))).2
  rw [(Hit.sort_perm _).mem_iff, Terrain.mem_hits, region_iff]
  exact and_iff_left marked

/-- The answers of a connected index to a query are exact if, and only if, the
runs lead from the end of the descent to the entry point. -/
theorem Reachable.exact_iff_leadsTo_entry [UniformSource σ]
    (reachable : index.Reachable)
    (entry : index.entryPoint = some entryPoint)
    (connected : index.connectivity 0 = .ok (index.size, 0))
    (accepted : requireAcceptable index.dimension query = .ok ()) :
    ∃ (start : Hit) (work : Work),
      index.descent query = .ok (start, work) ∧
      (∀ count width, 1 ≤ count → index.size ≤ width →
        (index.searchWidth query count width =
            .ok (exactNearest query index.cloud.vectors.toList count) ↔
          ∀ id ∈ exactIds index.cloud.vectors.toList count query,
            index.links.LeadsTo 0 start.id id)) ∧
      ((∀ count width, 1 ≤ count → index.size ≤ width →
          index.searchWidth query count width =
            .ok (exactNearest query index.cloud.vectors.toList count)) ↔
        index.links.LeadsTo 0 start.id entryPoint) := by
  obtain ⟨runs, sound⟩ := reachable.sound
  have acceptable := requireAcceptable_eq_ok_iff.mp accepted
  have entryInside : entryPoint < index.size :=
    sound.reaches_zero.mp ((sound.entry_reaches entry).of_le (Nat.zero_le _))
  have nonempty : 0 < index.size := (Nat.zero_le _).trans_lt entryInside
  obtain ⟨descended, _, _⟩ :=
    (sound.navigable acceptable entry).descent_eq
  have each : ∀ count width, 1 ≤ count → index.size ≤ width → _ :=
    fun count width countPos wide => sound.searchWidth_eq_exact_iff acceptable
      entry countPos (nonempty.trans_le wide) wide
  refine ⟨_, _, descended, each, fun exact_ => ?_, fun back => ?_⟩
  · refine (each index.size index.size nonempty (Nat.le_refl _)).mp
      (exact_ _ _ nonempty (Nat.le_refl _)) entryPoint ?_
    exact mem_exactIds_length entryInside
  · intro count width countPos wide
    refine (each count width countPos wide).mpr fun id member => ?_
    refine back.trans (sound.leadsTo_of_connected entry connected ?_)
    exact lt_length_of_mem_exactIds member

theorem IsLine.connectivity_eq {line : Index (Cycle Float)}
    (isLine : IsLine line) : line.connectivity 0 = .ok (line.size, 0) := by
  have sound := isLine.sound
  have size := isLine.size_eq
  obtain ⟨region, distinct, region_iff, counted⟩ :=
    sound.connectivity_eq isLine.entryPoint_eq (Nat.zero_le line.topLevel)
  have edge : ∀ {id neighbor}, id < 6 → neighbor ∈ lineRuns id 0 →
      line.links.LeadsTo 0 id neighbor := fun inside member =>
    .single ⟨_, sound.represents.neighbors_eq
      (sound.reaches_zero.mpr (size ▸ inside)), member⟩
  have first : line.links.LeadsTo 0 0 1 :=
    edge (by decide) (by decide +kernel)
  have listed : ∀ id < 6, id = 0 ∨ id = 1 ∨ id ∈ lineRuns 1 0 := by
    decide +kernel
  have perm : region.Perm (List.range 6) := by
    refine (List.perm_ext_iff_of_nodup distinct List.nodup_range).mpr
      fun id => ?_
    rw [region_iff, List.mem_range]
    constructor
    · intro path
      exact size ▸ sound.reaches_zero.mp (path.reaches sound.represents
        sound.proper (sound.reaches_zero.mpr (size ▸ Nat.zero_lt_succ 5)))
    · intro inside
      rcases listed id inside with rfl | rfl | member
      · exact .refl
      · exact first
      · exact first.trans (edge (by decide) member)
  rw [counted, perm.length_eq, isLine.levels_eq, size]
  rfl

theorem line_exact_iff_leadsTo_entry : ∃ line : Index (Cycle Float),
    line.Reachable ∧ line.entryPoint = some 0 ∧
    line.connectivity 0 = .ok (line.size, 0) ∧
    requireAcceptable line.dimension [Scalar.zero] = .ok () ∧
    ∃ (start : Hit) (work : Work),
      line.descent [Scalar.zero] = .ok (start, work) ∧
      ((∀ count width, 1 ≤ count → line.size ≤ width →
          line.searchWidth [Scalar.zero] count width =
            .ok (exactNearest [Scalar.zero] line.cloud.vectors.toList
              count)) ↔
        line.links.LeadsTo 0 start.id 0) := by
  obtain ⟨line, isLine⟩ := exists_isLine
  have accepted := isLine.accepted [Scalar.zero]
    (by decide +kernel)
  obtain ⟨start, work, descended, _, exact_⟩ :=
    isLine.reachable.exact_iff_leadsTo_entry isLine.entryPoint_eq
      isLine.connectivity_eq accepted
  exact ⟨line, isLine.reachable, isLine.entryPoint_eq, isLine.connectivity_eq,
    accepted, start, work, descended, exact_⟩

/-- Connected and searched with a beam that has room for all of its points,
the line is still not answered exactly: from the origin the runs do not lead
to the entry point. -/
theorem line_inexact : ∃ line : Index (Cycle Float),
    line.Reachable ∧ line.size = 6 ∧
    line.connectivity 0 = .ok (line.size, 0) ∧
    requireAcceptable line.dimension [Scalar.zero] = .ok () ∧
    (∃ hits, line.searchWidth [Scalar.zero] 6 6 = .ok hits ∧
      hits.map Hit.id = [1, 4, 5, 2, 3]) ∧
    exactIds line.cloud.vectors.toList 6 [Scalar.zero] =
      [1, 4, 5, 2, 3, 0] := by
  obtain ⟨line, isLine⟩ := exists_isLine
  have accepted := isLine.accepted [Scalar.zero]
    (by decide +kernel)
  refine ⟨line, isLine.reachable, isLine.size_eq, isLine.connectivity_eq,
    accepted, ⟨_, isLine.sound.searchWidth_eq
      (requireAcceptable_eq_ok_iff.mp accepted) isLine.entryPoint_eq
      (by decide) (by decide), ?_⟩, ?_⟩
  · rw [show max 6 6 = 6 from rfl, isLine.course_eq]
    decide +kernel
  · rw [isLine.cloud_eq, exactIds, exactNearest, Hit.sort_eq_arranged]
    decide +kernel

end SmallWorld.Index
