import SmallWorld.Proofs.Index.Exactness
import SmallWorld.Proofs.Index.Outline
import SmallWorld.Proofs.Traversal.Outcome

/-!
# What a beam holds

Wherever a level can be walked, a search returns as many hits as its width
and its seeds allow (`Beam.Fills`), and ends in a local optimum
(`Beam.IsOptimum`).  Of equally distant points at the edge of the beam it
keeps those that it has met first, not those of the lowest numbers
(`Beam.IsNearest`).
-/

namespace SmallWorld

section Outcomes

variable (cloud : Cloud) (links : Links) (query : Coordinates)
  (level : Nat) (seeds : List Hit) (width : Nat) (beam : Beam)

/-- The kept hits are in order, at points to which the seeds lead, and as many
of these as there is room for. -/
structure Beam.Fills : Prop where
  ascending : beam.kept.Pairwise fun first second =>
    first.le second = true ∧ first ≠ second
  distinct : (beam.kept.map Hit.id).Nodup
  reached : ∀ hit ∈ beam.kept, links.LeadsFrom level seeds hit.id ∧
    cloud.distanceTo hit.id query = .ok hit.distance
  length_eq : ∃ region : List PointId, region.Nodup ∧
    (∀ id, id ∈ region ↔ links.LeadsFrom level seeds id) ∧
    beam.kept.length = min width region.length

/-- The seeds have been seen, and nothing to which they do not lead.  The kept
hits are among what has been seen, and so are all their neighbours.  What has
been seen and is not kept is not nearer than the last hit of a full beam. -/
structure Beam.IsOptimum : Prop where
  seeds_seen : ∀ seed ∈ seeds, seed.id ∈ beam.seen
  seen_reached : ∀ id ∈ beam.seen, links.LeadsFrom level seeds id
  kept_seen : ∀ hit ∈ beam.kept, hit.id ∈ beam.seen ∧
    cloud.distanceTo hit.id query = .ok hit.distance
  ascending : beam.kept.Pairwise fun first second =>
    first.le second = true ∧ first ≠ second
  neighbors_seen : ∀ hit ∈ beam.kept, ∃ neighbors,
    links.neighbors hit.id level = .ok neighbors ∧
      ∀ neighbor ∈ neighbors, neighbor ∈ beam.seen
  dropped_farther : ∀ id ∈ beam.seen, id ∉ beam.kept.map Hit.id →
    beam.kept.length = width ∧ ∃ last distance,
      beam.kept.getLast? = some last ∧
      cloud.distanceTo id query = .ok distance ∧ last.distance ≤ distance
  nearer_kept : ∀ hit ∈ beam.kept, ∀ last, beam.kept.getLast? = some last →
    ∀ neighbors, links.neighbors hit.id level = .ok neighbors →
      ∀ neighbor ∈ neighbors, ∀ distance,
        cloud.distanceTo neighbor query = .ok distance →
          distance < last.distance → neighbor ∈ beam.kept.map Hit.id

/-- The kept hits have the least distances of all that have been seen, the
seeds among them.  They are the first ones by distance and number if, and only
if, no hit of a lower number that is as distant as the last one has been left
out. -/
def Beam.IsNearest : Prop :=
  ∃ seen : List Hit, Hit.Ordered seen ∧ seen.Nodup ∧ seeds ⊆ seen ∧
    (∀ hit, hit ∈ seen ↔ hit.id ∈ beam.seen ∧
      cloud.distanceTo hit.id query = .ok hit.distance) ∧
    beam.kept ⊆ seen ∧
    beam.kept.map Hit.distance = (seen.take width).map Hit.distance ∧
    (beam.kept = seen.take width ↔
      ∀ other ∈ seen, other ∉ beam.kept →
        ∀ last, beam.kept.getLast? = some last →
          other.distance = last.distance → last.id < other.id)

end Outcomes

variable {cloud : Cloud} {links : Links} {query : Coordinates} {level : Nat}
  {seeds : List Hit} {σ : Type} {index : Index σ} {runs : Runs}
  {entryPoint : PointId}

namespace Index

theorem Sound.walkable_of_measured (sound : index.Sound runs)
    (measured : ∀ {id}, index.links.Reaches level id →
      ∃ distance, index.cloud.distanceTo id query = .ok distance) :
    Walkable index.cloud index.links query level := by
  apply Walkable.of_laid sound.represents.laid _ measured
  intro id neighbors reaches listed neighbor member
  cases (sound.represents.neighbors_eq reaches).symm.trans listed
  exact sound.proper.reaches reaches member

theorem Sound.walkable (sound : index.Sound runs)
    (acceptable : Acceptable index.cloud.dimension query) (level : Nat) :
    Walkable index.cloud index.links query level :=
  sound.walkable_of_measured fun reaches =>
    ⟨_, sound.cloud.distanceTo_eq acceptable (sound.lt_size reaches)⟩

theorem Sound.seeded (sound : index.Sound runs)
    (acceptable : Acceptable index.cloud.dimension query) {level : Nat}
    {ids : List PointId} (onLevel : ∀ id ∈ ids, index.links.Reaches level id) :
    Seeded index.cloud index.links query level
      (ids.map (index.cloud.hit query)) := by
  intro seed listed
  obtain ⟨id, member, rfl⟩ := List.mem_map.mp listed
  exact ⟨onLevel id member, sound.cloud.distanceTo_eq acceptable
    (sound.lt_size (onLevel id member))⟩

/-- The number six, as far from the third point of the line as from the
fifth. -/
def six : Scalar := .ofBits 0x40c00000

def two : Scalar := .ofBits 0x40000000

namespace IsLine

variable {line : Index (Cycle Float)}

theorem acceptable_six (isLine : IsLine line) :
    Acceptable line.cloud.dimension [six] :=
  requireAcceptable_eq_ok_iff.mp (isLine.accepted [six] (by decide +kernel))

theorem walkable (isLine : IsLine line) :
    Walkable line.cloud line.links [six] 0 :=
  isLine.sound.walkable isLine.acceptable_six 0

/-- The second point of the line, and the third one twice. -/
theorem seeded (isLine : IsLine line) : Seeded line.cloud line.links [six] 0
    ([1, 2, 2].map (line.cloud.hit [six])) := by
  apply isLine.sound.seeded isLine.acceptable_six
  simp [isLine.sound.reaches_zero, isLine.size_eq]

end IsLine

end Index

namespace Walkable

theorem search_fills (walkable : Walkable cloud links query level)
    (seeded : Seeded cloud links query level seeds) (width : Nat) : ∃ beam,
    (Layer.of cloud links query level).search seeds width = .ok beam ∧
      beam.Fills cloud links query level seeds width := by
  obtain ⟨beam, sweep, searched, kept_eq, _, ended⟩ :=
    walkable.search_eq seeded width
  obtain ⟨region, distinct, region_iff⟩ :=
    walkable.exists_region seeded.onLevel
  have sound := ended.sound
  refine ⟨beam, searched, ?_⟩
  constructor
  · rw [kept_eq]
    exact sound.kept_ordered.and sound.kept_nodup
  · rw [kept_eq]
    exact sound.ids_nodup
  · rw [kept_eq]
    intro hit kept
    exact ⟨sound.seen_inside hit.id (ended.seen_of_kept kept),
      ended.measured_of_kept walkable seeded kept⟩
  · refine ⟨region, distinct, region_iff, ?_⟩
    rw [kept_eq]
    apply ended.kept_length distinct region_iff
    rintro id ⟨seed, listed, path⟩
    exact ⟨seed, listed, Relation.ReflTransGen.mono
      (fun _ _ => Layer.mem_adjacent.mpr) _ _ path⟩

/-- A search ends in a local optimum. -/
theorem search_isOptimum (walkable : Walkable cloud links query level)
    (seeded : Seeded cloud links query level seeds) {width : Nat}
    (widthPos : 1 ≤ width) : ∃ beam,
    (Layer.of cloud links query level).search seeds width = .ok beam ∧
      beam.IsOptimum cloud links query level seeds width := by
  obtain ⟨beam, sweep, searched, kept_eq, seen_iff, ended⟩ :=
    walkable.search_eq seeded width
  have sound := ended.sound
  refine ⟨beam, searched, ?_, ?_, ?_, ?_, ?_, ?_, ?_⟩
  · intro seed listed
    exact (seen_iff seed.id).mpr (ended.seeds_seen seed listed)
  · intro id seen
    exact sound.seen_inside id ((seen_iff id).mp seen)
  · intro hit kept
    rw [kept_eq] at kept
    exact ⟨(seen_iff hit.id).mpr (ended.seen_of_kept kept),
      ended.measured_of_kept walkable seeded kept⟩
  · rw [kept_eq]
    exact sound.kept_ordered.and sound.kept_nodup
  · intro hit kept
    simp only [seen_iff]
    exact ended.neighbors_seen walkable seeded (kept_eq ▸ kept)
  · intro id seen dropped
    rw [seen_iff] at seen
    rw [kept_eq] at dropped ⊢
    have full := sound.length_eq_of_notMem seen
      (mt sound.mem_ids_kept.mpr dropped)
    have nonempty : sweep.kept ≠ [] := by
      apply List.ne_nil_of_length_pos
      omega
    have measured := ended.measured walkable seeded seen
    exact ⟨full, _, _, List.getLast?_eq_some_getLast nonempty, measured,
      (ended.distance_le walkable seeded seen dropped
        (List.getLast_mem nonempty) measured).1⟩
  · intro hit kept last isLast neighbors listed neighbor member distance
      measured nearer
    rw [kept_eq] at kept isLast ⊢
    obtain ⟨_, listed', seen⟩ := ended.neighbors_seen walkable seeded kept
    cases listed.symm.trans listed'
    by_contra dropped
    exact (ended.distance_le walkable seeded (seen neighbor member) dropped
      (List.mem_of_getLast? isLast) measured).2 nearer

end Walkable

namespace Index

theorem line_isOptimum : ∃ line : Index (Cycle Float),
    Walkable line.cloud line.links [six] 0 ∧
    Seeded line.cloud line.links [six] 0
      ([1, 2, 2].map (line.cloud.hit [six])) ∧
    1 ≤ 2 ∧ ∃ beam, (Layer.of line.cloud line.links [six] 0).search
        ([1, 2, 2].map (line.cloud.hit [six])) 2 = .ok beam ∧
      beam.IsOptimum line.cloud line.links [six] 0
        ([1, 2, 2].map (line.cloud.hit [six])) 2 := by
  obtain ⟨line, isLine⟩ := exists_isLine
  exact ⟨line, isLine.walkable, isLine.seeded, by decide,
    isLine.walkable.search_isOptimum isLine.seeded (by decide)⟩

end Index

namespace Walkable

/-- What a search returns are the nearest points that it has seen, but for the
choice among those that are as distant as the last one. -/
theorem search_isNearest (walkable : Walkable cloud links query level)
    (seeded : Seeded cloud links query level seeds) (width : Nat) : ∃ beam,
    (Layer.of cloud links query level).search seeds width = .ok beam ∧
      beam.IsNearest cloud query seeds width := by
  obtain ⟨beam, sweep, searched, kept_eq, seen_iff, ended⟩ :=
    walkable.search_eq seeded width
  have sound := ended.sound
  have perm := Hit.sort_perm
    ((Layer.of cloud links query level).terrain.hits sweep.seen)
  refine ⟨beam, searched, Hit.sort
    ((Layer.of cloud links query level).terrain.hits sweep.seen),
    Hit.ordered_sort _, perm.nodup_iff.mpr sound.hits_nodup,
    fun seed listed => ?_, fun hit => ?_, fun hit kept => ?_, ?_, ?_⟩
  · rw [perm.mem_iff, ended.mem_hits_iff walkable seeded]
    exact ⟨ended.seeds_seen seed listed, (seeded seed listed).2⟩
  · rw [perm.mem_iff, seen_iff]
    exact ended.mem_hits_iff walkable seeded
  · rw [kept_eq] at kept
    exact perm.mem_iff.mpr (sound.kept_seen hit kept)
  · rw [kept_eq]
    exact sound.distances_kept
  · rw [kept_eq, sound.kept_eq_take_iff]
    simp only [perm.mem_iff]

end Walkable

namespace Index

theorem line_isNearest : ∃ line : Index (Cycle Float),
    Walkable line.cloud line.links [six] 0 ∧
    Seeded line.cloud line.links [six] 0
      ([1, 2, 2].map (line.cloud.hit [six])) ∧
    ∃ beam, (Layer.of line.cloud line.links [six] 0).search
        ([1, 2, 2].map (line.cloud.hit [six])) 2 = .ok beam ∧
      beam.IsNearest line.cloud [six]
        ([1, 2, 2].map (line.cloud.hit [six])) 2 := by
  obtain ⟨line, isLine⟩ := exists_isLine
  exact ⟨line, isLine.walkable, isLine.seeded,
    isLine.walkable.search_isNearest isLine.seeded 2⟩

/-- The third and the fifth point of the line are equally distant from the
number six.  A beam of width one sees both of them and keeps the fifth, so the
answer of the query is not the exact one. -/
theorem line_keeps_later : ∃ line : Index (Cycle Float),
    line.Reachable ∧ Walkable line.cloud line.links [six] 0 ∧
    Seeded line.cloud line.links [six] 0 [⟨six, 1⟩] ∧
    (∃ beam, (Layer.of line.cloud line.links [six] 0).search
        [⟨six, 1⟩] 1 = .ok beam ∧
      beam.kept = [⟨two, 4⟩] ∧ 2 ∈ beam.seen) ∧
    line.cloud.distanceTo 2 [six] = .ok two ∧
    (Hit.mk two 2).le ⟨two, 4⟩ = true ∧
    line.searchWidth [six] 1 1 = .ok [⟨two, 4⟩] ∧
    exactNearest [six] line.cloud.vectors.toList 1 = [⟨two, 2⟩] := by
  obtain ⟨line, isLine⟩ := exists_isLine
  have sound := isLine.sound
  have acceptable := isLine.acceptable_six
  have entry := isLine.entryPoint_eq
  have landing : (line.descended lineRuns [six] 0).1 = ⟨six, 1⟩ := by
    rw [isLine.descended_eq]
    decide +kernel
  obtain ⟨descended, reaches, marked⟩ :=
    (sound.navigable acceptable entry).descent_eq
  obtain ⟨beam, searched, tracks, _⟩ :=
    (sound.navigable acceptable entry).beam_eq 1
  simp only [Index.beam, descended, ok_bind, landing] at searched
  have kept : beam.kept = [⟨two, 4⟩] := by
    rw [tracks.kept_eq, isLine.course_eq]
    decide +kernel
  have seen : 2 ∈ beam.seen := by
    rw [← Std.HashSet.contains_iff_mem, tracks.contains_eq,
      isLine.course_eq]
    decide +kernel
  refine ⟨line, isLine.reachable, isLine.walkable, ?_,
    ⟨beam, searched, kept, seen⟩, ?_, by decide +kernel, ?_, ?_⟩
  · intro seed listed
    rw [List.mem_singleton.mp listed, sound.reaches_zero, isLine.size_eq,
      isLine.cloud_eq]
    decide +kernel
  · rw [isLine.cloud_eq]
    decide +kernel
  · rw [sound.searchWidth_eq acceptable entry (by decide) (by decide),
      show max 1 1 = 1 from rfl, ← tracks.kept_eq, kept]
    rfl
  · rw [isLine.cloud_eq, exactNearest, Hit.sort_eq_arranged]
    decide +kernel

/-- A query is answered by as many hits as it asks for, or by all points that
can be reached on level 0 from the end of its descent. -/
theorem Sound.searchWithWork_length (sound : index.Sound runs)
    (acceptable : Acceptable index.cloud.dimension query)
    (entry : index.entryPoint = some entryPoint) {count width : Nat}
    (countPos : 1 ≤ count) (widthPos : 1 ≤ width) :
    ∃ (start : Hit) (work work' : Work) (hits : List Hit)
      (region : List PointId),
      index.descent query = .ok (start, work) ∧
      index.searchWithWork query count width = .ok (hits, work') ∧
      region.Nodup ∧
      (∀ id, id ∈ region ↔ index.links.LeadsTo 0 start.id id) ∧
      hits.length = min count region.length := by
  obtain ⟨descended, reaches, marked⟩ :=
    (sound.navigable acceptable entry).descent_eq
  obtain ⟨beam, searched, tracks, _⟩ :=
    (sound.navigable acceptable entry).beam_eq (max width count)
  simp only [Index.beam, descended, ok_bind] at searched
  have seeded : Seeded index.cloud index.links query 0
      ([(index.descended runs query entryPoint).1.id].map
        (index.cloud.hit query)) := by
    apply sound.seeded acceptable
    simpa using reaches
  rw [List.map_singleton, ← marked] at seeded
  obtain ⟨beam', searched', fills⟩ :=
    (sound.walkable acceptable 0).search_fills seeded (max width count)
  cases searched.symm.trans searched'
  obtain ⟨region, distinct, region_iff, length⟩ := fills.length_eq
  refine ⟨(index.descended runs query entryPoint).1, _, _, _, region,
    descended, (sound.navigable acceptable entry).searchWithWork_eq acceptable
      countPos widthPos,
    distinct, fun id => ?_, ?_⟩
  · simp [region_iff, Links.LeadsFrom]
  · rw [List.length_take, ← tracks.kept_eq, length]
    omega

variable [UniformSource σ]

/-- A search returns hits in order, at different points to which its seeds
lead, and as many of them as its width allows; so a query gets all hits that
it asks for unless fewer points can be reached. -/
theorem beam_fills :
    (∀ {cloud : Cloud} {links : Links} {query : Coordinates} {level : Nat}
      {seeds : List Hit}, Walkable cloud links query level →
        Seeded cloud links query level seeds → ∀ width, ∃ beam,
          (Layer.of cloud links query level).search seeds width = .ok beam ∧
            beam.Fills cloud links query level seeds width) ∧
    ∀ {index : Index σ} {query : Coordinates} {count width : Nat},
      index.Reachable → 0 < index.size →
        requireAcceptable index.dimension query = .ok () →
          1 ≤ count → 1 ≤ width →
            ∃ (start : Hit) (work work' : Work) (hits : List Hit)
              (region : List PointId),
              index.descent query = .ok (start, work) ∧
              index.searchWithWork query count width = .ok (hits, work') ∧
              region.Nodup ∧
              (∀ id, id ∈ region ↔ index.links.LeadsTo 0 start.id id) ∧
              hits.length = min count region.length := by
  refine ⟨Walkable.search_fills, ?_⟩
  intro index query count width reachable nonempty accepted countPos widthPos
  obtain ⟨runs, sound⟩ := reachable.sound
  obtain ⟨entryPoint, entry⟩ := sound.exists_entry nonempty
  exact sound.searchWithWork_length (requireAcceptable_eq_ok_iff.mp accepted)
    entry countPos widthPos

theorem line_beam_fills : ∃ line : Index (Cycle Float),
    (Walkable line.cloud line.links [six] 0 ∧
      Seeded line.cloud line.links [six] 0
        ([1, 2, 2].map (line.cloud.hit [six])) ∧
      ∃ beam, (Layer.of line.cloud line.links [six] 0).search
          ([1, 2, 2].map (line.cloud.hit [six])) 2 = .ok beam ∧
        beam.Fills line.cloud line.links [six] 0
          ([1, 2, 2].map (line.cloud.hit [six])) 2) ∧
    line.Reachable ∧ 0 < line.size ∧
    requireAcceptable line.dimension [six] = .ok () ∧ 1 ≤ 4 ∧ 1 ≤ 2 ∧
    ∃ (start : Hit) (work work' : Work) (hits : List Hit)
      (region : List PointId),
      line.descent [six] = .ok (start, work) ∧
      line.searchWithWork [six] 4 2 = .ok (hits, work') ∧
      region.Nodup ∧
      (∀ id, id ∈ region ↔ line.links.LeadsTo 0 start.id id) ∧
      hits.length = min 4 region.length := by
  obtain ⟨line, isLine⟩ := exists_isLine
  have accepted := isLine.accepted [six] (by decide +kernel)
  refine ⟨line, ⟨isLine.walkable, isLine.seeded, ?_⟩, isLine.reachable,
    isLine.size_pos, accepted, by decide, by decide, ?_⟩
  · exact (beam_fills (σ := Cycle Float)).1 isLine.walkable isLine.seeded 2
  · exact beam_fills.2 isLine.reachable isLine.size_pos accepted (by decide)
      (by decide)

end Index

end SmallWorld
