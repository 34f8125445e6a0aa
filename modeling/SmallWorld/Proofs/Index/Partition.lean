import SmallWorld.Proofs.Index.Beams
import SmallWorld.Proofs.Index.Connectivity

/-!
# How connectivity divides a level

The points of a level are those to which its runs lead from the entry point,
and the orphans (`Links.Parted`).  Connectivity counts both kinds, and a beam
with room for all points of the first kind finds exactly these
(`Reachable.connectivity_parts`).
-/

namespace SmallWorld

theorem countP_range_getElem? {α : Type} (values : List α)
    (property : α → Bool) :
    (List.range values.length).countP
        (fun position => values[position]?.any property) =
      values.countP property := by
  induction values with
  | nil => rfl
  | cons value rest inductionHypothesis =>
      rw [List.length_cons, List.range_succ_eq_map, List.countP_cons,
        List.countP_map, List.countP_cons, ← inductionHypothesis]
      rfl

/-- The points of a level in two parts: those to which its runs lead from a
start, and the others. -/
structure Links.Parted (links : Links) (level : Nat) (start : PointId)
    (region orphans : List PointId) : Prop where
  distinct : (region ++ orphans).Nodup
  region_iff : ∀ id, id ∈ region ↔ links.LeadsTo level start id
  region_reaches : ∀ id ∈ region, links.Reaches level id
  orphans_iff : ∀ id, id ∈ orphans ↔
    links.Reaches level id ∧ ¬ links.LeadsTo level start id

variable {cloud : Cloud} {links : Links} {query : Coordinates}
  {level width : Nat} {seeds : List Hit} {beam : Beam} {start : PointId}
  {region orphans : List PointId}

/-- The levels count the points of a level. -/
theorem Links.length_of_mem_iff {ids : List PointId} (distinct : ids.Nodup)
    (ids_iff : ∀ id, id ∈ ids ↔ links.Reaches level id) :
    ids.length = links.levels.toList.countP fun own => level ≤ own := by
  have perm : ids.Perm ((List.range links.levels.toList.length).filter
      fun id => links.levels.toList[id]?.any fun own => level ≤ own) := by
    refine (List.perm_ext_iff_of_nodup distinct
      (List.nodup_range.filter _)).mpr fun id => ?_
    rw [ids_iff, List.mem_filter, List.mem_range, Array.getElem?_toList,
      Option.any_eq_true]
    simp only [decide_eq_true_eq]
    exact (and_iff_right_of_imp Links.Reaches.lt_size).symm
  rw [perm.length_eq, ← List.countP_eq_length_filter, countP_range_getElem?]

/-- Together the two parts are the points of the level. -/
theorem Links.Parted.length_add
    (parted : links.Parted level start region orphans) :
    region.length + orphans.length =
      links.levels.toList.countP fun own => level ≤ own := by
  rw [← List.length_append]
  refine Links.length_of_mem_iff parted.distinct fun id => ?_
  rw [List.mem_append, parted.orphans_iff]
  constructor
  · exact fun part => part.elim (parted.region_reaches id) And.left
  · intro reaches
    by_cases led : links.LeadsTo level start id
    · exact .inl ((parted.region_iff id).mpr led)
    · exact .inr ⟨reaches, led⟩

/-- A beam with room for all points to which its seeds lead keeps all of
them. -/
theorem Beam.Fills.perm_region
    (fills : beam.Fills cloud links query level seeds width)
    (distinct : region.Nodup)
    (region_iff : ∀ id, id ∈ region ↔ links.LeadsFrom level seeds id)
    (wide : region.length ≤ width) :
    (beam.kept.map Hit.id).Perm region := by
  obtain ⟨region', distinct', region'_iff, length_eq⟩ := fills.length_eq
  have same : region'.Perm region :=
    (List.perm_ext_iff_of_nodup distinct' distinct).mpr fun id =>
      (region'_iff id).trans (region_iff id).symm
  have inside : beam.kept.map Hit.id ⊆ region := by
    intro id member
    obtain ⟨hit, kept, rfl⟩ := List.mem_map.mp member
    exact (region_iff hit.id).mpr (fills.reached hit kept).1
  refine (fills.distinct.subperm inside).perm_of_length_le ?_
  rw [List.length_map, length_eq, same.length_eq, Nat.min_eq_right wide]

namespace Index

variable {σ : Type} {index : Index σ} {runs : Runs} {entryPoint : PointId}

theorem Sound.connectivity_eq_parted (sound : index.Sound runs)
    (entry : index.entryPoint = some entryPoint)
    (below : level ≤ index.topLevel) :
    ∃ region orphans,
      index.connectivity level = .ok (region.length, orphans.length) ∧
        index.links.Parted level entryPoint region orphans := by
  obtain ⟨region, distinct, region_iff, counted⟩ :=
    sound.connectivity_eq entry below
  have entryReaches := (sound.entry_reaches entry).of_le below
  obtain ⟨orphans, orphansDistinct, orphans_iff⟩ := exists_listing
    fun id (orphan : index.links.Reaches level id ∧
      ¬ index.links.LeadsTo level entryPoint id) => orphan.1.lt_size
  have parted : index.links.Parted level entryPoint region orphans := by
    refine ⟨List.nodup_append.mpr ⟨distinct, orphansDistinct, ?_⟩, region_iff,
      fun id member => ((region_iff id).mp member).reaches sound.represents
        sound.proper entryReaches, orphans_iff⟩
    rintro id inRegion _ orphan rfl
    exact ((orphans_iff id).mp orphan).2 ((region_iff id).mp inRegion)
  refine ⟨region, orphans, ?_, parted⟩
  rw [counted, ← parted.length_add, Nat.add_sub_cancel_left]

/-- On every level of an index that has been built by insertions, connectivity
counts the points to which the runs lead from the entry point and the other
points of the level, and leaves none out.  A search from the entry point with
room for the points of the first kind returns exactly these. -/
theorem Reachable.connectivity_parts [UniformSource σ]
    (reachable : index.Reachable) (nonempty : 0 < index.size)
    (below : level ≤ index.topLevel) :
    ∃ entryPoint region orphans, index.entryPoint = some entryPoint ∧
      index.connectivity level = .ok (region.length, orphans.length) ∧
      index.links.Parted level entryPoint region orphans ∧
      region.length + orphans.length =
        index.links.levels.toList.countP (fun own => level ≤ own) ∧
      ∀ query, (∀ id, index.links.Reaches level id →
          ∃ distance, index.cloud.distanceTo id query = .ok distance) →
        ∃ distance, index.cloud.distanceTo entryPoint query = .ok distance ∧
          ∀ width, region.length ≤ width → ∃ beam,
            (Layer.of index.cloud index.links query level).search
                [⟨distance, entryPoint⟩] width = .ok beam ∧
              beam.Fills index.cloud index.links query level
                [⟨distance, entryPoint⟩] width ∧
              (beam.kept.map Hit.id).Perm region := by
  obtain ⟨runs, sound⟩ := reachable.sound
  obtain ⟨entryPoint, entry⟩ := sound.exists_entry nonempty
  have entryReaches := (sound.entry_reaches entry).of_le below
  obtain ⟨region, orphans, counted, parted⟩ :=
    sound.connectivity_eq_parted entry below
  refine ⟨entryPoint, region, orphans, entry, counted, parted,
    parted.length_add, fun query measured => ?_⟩
  obtain ⟨distance, entryMeasured⟩ := measured entryPoint entryReaches
  refine ⟨distance, entryMeasured, fun width wide => ?_⟩
  have seeded : Seeded index.cloud index.links query level
      [⟨distance, entryPoint⟩] := by
    intro seed listed
    cases List.mem_singleton.mp listed
    exact ⟨entryReaches, entryMeasured⟩
  obtain ⟨beam, searched, fills⟩ :=
    (sound.walkable_of_measured (measured _)).search_fills seeded width
  refine ⟨beam, searched, fills, fills.perm_region
    (List.nodup_append.mp parted.distinct).1 (fun id => ?_) wide⟩
  rw [parted.region_iff]
  simp [Links.LeadsFrom]

theorem line_connectivity_parts : ∃ line : Index (Cycle Float),
    line.Reachable ∧ 0 < line.size ∧ 1 ≤ line.topLevel ∧
    (∀ id, line.links.Reaches 1 id →
      ∃ distance, line.cloud.distanceTo id [six] = .ok distance) ∧
    ∃ entryPoint region orphans, line.entryPoint = some entryPoint ∧
      line.connectivity 1 = .ok (region.length, orphans.length) ∧
      line.links.Parted 1 entryPoint region orphans ∧
      region.length + orphans.length = 2 ∧
      ∃ distance, line.cloud.distanceTo entryPoint [six] = .ok distance ∧
        ∃ beam, (Layer.of line.cloud line.links [six] 1).search
            [⟨distance, entryPoint⟩] 2 = .ok beam ∧
          (beam.kept.map Hit.id).Perm region := by
  obtain ⟨line, isLine⟩ := exists_isLine
  have top : line.topLevel = 1 :=
    (congrArg Index.topLevel isLine.outline_eq).trans (by decide +kernel)
  have measured : ∀ id, line.links.Reaches 1 id →
      ∃ distance, line.cloud.distanceTo id [six] = .ok distance :=
    fun id reaches => isLine.walkable.distance (reaches.of_le (Nat.zero_le 1))
  obtain ⟨entryPoint, region, orphans, entry, counted, parted, length_eq,
    searched⟩ := isLine.reachable.connectivity_parts isLine.size_pos top.ge
  have total : region.length + orphans.length = 2 := by
    rw [length_eq, isLine.levels_eq]
    rfl
  obtain ⟨distance, entryMeasured, found⟩ := searched [six] measured
  obtain ⟨beam, searched, _, perm⟩ :=
    found 2 ((Nat.le_add_right _ _).trans total.le)
  exact ⟨line, isLine.reachable, isLine.size_pos, top.ge, measured, entryPoint,
    region, orphans, entry, counted, parted, total, distance, entryMeasured,
    beam, searched, perm⟩

end Index

end SmallWorld
