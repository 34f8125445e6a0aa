import SmallWorld.Proofs.Index.Beams
import SmallWorld.Proofs.Traversal.Accounting

/-!
# The work of a query

A query measures the entry point, the neighbours on its way down, and on level
0 each point that its beam sees, but for the one from which it starts.  So it
computes as many distances as its beam sees points, and those of its descent.
-/

namespace SmallWorld.Index

variable {σ : Type} {index : Index σ} {runs : Runs} {query : Coordinates}
  {entryPoint : PointId}

/-- The descent of a query, with notes in the place of the work.  The distance
of the entry point is not among them. -/
def descentNoted (index : Index σ) (query : Coordinates) :
    Except Fault (Hit × Trail) :=
  match index.entryPoint with
  | none => .error .outOfBounds
  | some entryPoint => do
      let distance ← index.cloud.distanceTo entryPoint query
      descendNoted (Layer.of index.cloud index.links query) 0 index.topLevel
        { distance, id := entryPoint } Trail.empty

theorem descentNoted_of_descent {start : Hit} {work : Work}
    (descended : index.descent query = .ok (start, work)) :
    ∃ trail, index.descentNoted query = .ok (start, trail) ∧
      trail.work = work := by
  cases entry : index.entryPoint with
  | none =>
      simp only [descent, entry] at descended
      cases descended
  | some entryPoint =>
      simp only [descent, entry] at descended
      obtain ⟨distance, measured, descended⟩ := bind_eq_ok_iff.mp descended
      obtain ⟨trail, noted, work_eq⟩ :=
        descendNoted_of_descend descended Trail.empty
      refine ⟨trail, ?_, work_eq.trans (Work.zero_add work)⟩
      simp only [descentNoted, entry, measured, ok_bind, noted]

theorem Sound.work_eq (sound : index.Sound runs)
    (acceptable : Acceptable index.cloud.dimension query)
    (entry : index.entryPoint = some entryPoint) {count width : Nat}
    (countPos : 1 ≤ count) (widthPos : 1 ≤ width) :
    ∃ (start : Hit) (trail : Trail) (hits : List Hit) (work : Work),
      index.descent query = .ok (start, trail.work) ∧
      index.descentNoted query = .ok (start, trail) ∧
      index.searchWithWork query count width = .ok (hits, work) ∧
      work.visited ≤ index.size ∧
      work.distances = work.visited + trail.measured.length ∧
      (index.topLevel = 0 → work.distances = work.visited) := by
  have navigable := sound.navigable acceptable entry
  obtain ⟨ends, reaches, _⟩ := navigable.descent_eq
  obtain ⟨trail, noted, trail_work⟩ := descentNoted_of_descent ends
  obtain ⟨beam, searched, tracks, _⟩ := navigable.beam_eq (max width count)
  simp only [Index.beam, ends, ok_bind] at searched
  obtain ⟨beam', _, searched', _, accounts⟩ :=
    (sound.walkable acceptable 0).search_accounts
      (fun seed listed => List.mem_singleton.mp listed ▸ reaches)
      (max width count)
  cases searched.symm.trans searched'
  -- Of the points that the beam sees only its seed is not measured.
  have seed : beam.measured + 1 = beam.seen.size := accounts.distances_add
  rw [tracks.measured_eq, tracks.size_eq] at seed
  have trail_visited : (index.descended runs query entryPoint).2.visited = 0 :=
    congrArg Work.visited trail_work.symm
  have trail_measured : (index.descended runs query entryPoint).2.distances =
      trail.measured.length := congrArg Work.distances trail_work.symm
  refine ⟨_, trail, _, _, trail_work ▸ ends, noted,
    navigable.searchWithWork_eq acceptable countPos widthPos, ?_, ?_,
    fun low => ?_⟩
  · have courseSound :=
      sound.course_sound acceptable entry (max width count)
    have below : (index.course runs query entryPoint
        (max width count)).seen ⊆ List.range index.size := fun id seen =>
      List.mem_range.mpr (sound.lt_size (courseSound.seen_inside id seen))
    have few := (courseSound.seen_nodup.subperm below).length_le
    rw [List.length_range] at few
    simp only [Work.add_visited]
    omega
  · simp only [Work.add_distances, Work.add_visited]
    omega
  · have none : (index.descended runs query entryPoint).2.distances = 0 := by
      unfold descended
      rw [low]
      rfl
    simp only [Work.add_distances, Work.add_visited]
    omega

variable [UniformSource σ]

/-- A search expands no point twice and measures no point twice, and its
counters are the numbers of the points expanded, measured and seen.  So a query
computes as many distances as its beam sees points, and those of its
descent. -/
theorem work_accounts :
    (∀ {cloud : Cloud} {links : Links} {query : Coordinates} {level : Nat}
      {seeds : List Hit}, Walkable cloud links query level →
        (∀ seed ∈ seeds, links.Reaches level seed.id) → ∀ width,
          ∃ beam trail,
            (Layer.of cloud links query level).search seeds width =
              .ok beam ∧
            (Layer.of cloud links query level).searchNoted seeds width =
              .ok (beam, trail) ∧
            beam.Accounts links level seeds width trail) ∧
    ∀ {index : Index σ} {query : Coordinates} {count width : Nat},
      index.Reachable → 0 < index.size →
        requireAcceptable index.dimension query = .ok () →
          1 ≤ count → 1 ≤ width →
            ∃ (start : Hit) (trail : Trail) (hits : List Hit) (work : Work),
              index.descent query = .ok (start, trail.work) ∧
              index.descentNoted query = .ok (start, trail) ∧
              index.searchWithWork query count width = .ok (hits, work) ∧
              work.visited ≤ index.size ∧
              work.distances = work.visited + trail.measured.length ∧
              (index.topLevel = 0 → work.distances = work.visited) := by
  refine ⟨Walkable.search_accounts, ?_⟩
  intro index query count width reachable nonempty accepted countPos widthPos
  obtain ⟨runs, sound⟩ := reachable.sound
  obtain ⟨entryPoint, entry⟩ := sound.exists_entry nonempty
  exact sound.work_eq (requireAcceptable_eq_ok_iff.mp accepted) entry countPos
    widthPos

theorem line_work_accounts : ∃ line : Index (Cycle Float),
    (Walkable line.cloud line.links [six] 0 ∧
      (∀ seed ∈ [1, 2, 2].map (line.cloud.hit [six]),
        line.links.Reaches 0 seed.id) ∧
      ∃ beam trail,
        (Layer.of line.cloud line.links [six] 0).search
          ([1, 2, 2].map (line.cloud.hit [six])) 2 = .ok beam ∧
        (Layer.of line.cloud line.links [six] 0).searchNoted
          ([1, 2, 2].map (line.cloud.hit [six])) 2 = .ok (beam, trail) ∧
        beam.Accounts line.links 0 ([1, 2, 2].map (line.cloud.hit [six])) 2
          trail) ∧
    line.Reachable ∧ 0 < line.size ∧
    requireAcceptable line.dimension [six] = .ok () ∧ 1 ≤ 4 ∧ 1 ≤ 2 ∧
    ∃ (start : Hit) (trail : Trail) (hits : List Hit) (work : Work),
      line.descent [six] = .ok (start, trail.work) ∧
      line.descentNoted [six] = .ok (start, trail) ∧
      line.searchWithWork [six] 4 2 = .ok (hits, work) ∧
      work.visited ≤ line.size ∧
      work.distances = work.visited + trail.measured.length ∧
      (line.topLevel = 0 → work.distances = work.visited) := by
  obtain ⟨line, isLine⟩ := exists_isLine
  have accepted := isLine.accepted [six] (by decide +kernel)
  have onLevel := isLine.seeded.onLevel
  refine ⟨line, ⟨isLine.walkable, onLevel, ?_⟩, isLine.reachable,
    isLine.size_pos, accepted, by decide, by decide, ?_⟩
  · exact (work_accounts (σ := Cycle Float)).1 isLine.walkable onLevel 2
  · exact work_accounts.2 isLine.reachable isLine.size_pos accepted (by decide)
      (by decide)

end SmallWorld.Index
