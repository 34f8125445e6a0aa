import SmallWorld.Index.Query
import SmallWorld.Proofs.Index.Runs

/-!
# Searches without faults

In a sound index every accepted query has an answer.  The descent ends at a
point of level 0 (`descended`), and the beam follows a sweep from there
(`course`): `searchWithWork_eq` gives the hits and the work in these terms.
-/

namespace SmallWorld

/-- Where a query starts on level 0: the end of its descent from the entry
point. -/
def Index.descent {σ : Type} (index : Index σ) (query : Coordinates) :
    Except Fault (Hit × Work) :=
  match index.entryPoint with
  | none => .error .outOfBounds
  | some entryPoint => do
      let distance ← index.cloud.distanceTo entryPoint query
      descend (Layer.of index.cloud index.links query) 0 index.topLevel
        { distance, id := entryPoint }

def Index.beam {σ : Type} (index : Index σ) (query : Coordinates)
    (width : Nat) : Except Fault Beam := do
  let (start, _) ← index.descent query
  (Layer.of index.cloud index.links query 0).search [start] width

def Cloud.hit (cloud : Cloud) (query : Coordinates) (id : PointId) : Hit where
  distance := cloud.reach query id
  id

namespace Index

variable {σ : Type} {index : Index σ} {runs : Runs} {query : Coordinates}
  {entryPoint : PointId}

def terrain (index : Index σ) (runs : Runs) (query : Coordinates)
    (level : Nat) : Terrain :=
  runs.terrain (index.cloud.reach query) level

def descended (index : Index σ) (runs : Runs) (query : Coordinates)
    (entryPoint : PointId) : Hit × Work :=
  descendOver (index.terrain runs query) (index.size + 1) 0 index.topLevel
    (index.cloud.hit query entryPoint)

def course (index : Index σ) (runs : Runs) (query : Coordinates)
    (entryPoint : PointId) (width : Nat) : Sweep :=
  (index.terrain runs query 0).sweep index.size width
    [(index.descended runs query entryPoint).1]

/-- An accepted query for at least one point starts at the entry point. -/
theorem entryFor_eq (acceptable : Acceptable index.cloud.dimension query)
    {count width : Nat} (countPos : 1 ≤ count) (widthPos : 1 ≤ width) :
    index.entryFor query count width =
      match index.entryPoint with
      | none => .error .noPoints
      | some entryPoint => .ok entryPoint := by
  unfold entryFor
  rw [if_neg (Nat.pos_iff_ne_zero.mp countPos),
    if_neg (Nat.pos_iff_ne_zero.mp widthPos),
    requireAcceptable_eq_ok_iff.mpr
      (show Acceptable index.dimension query from acceptable)]
  rfl

theorem searchWithWork_eq_noPoints
    (acceptable : Acceptable index.cloud.dimension query)
    (empty : index.entryPoint = none) {count width : Nat}
    (countPos : 1 ≤ count) (widthPos : 1 ≤ width) :
    index.searchWithWork query count width = .error (.refused .noPoints) := by
  rw [searchWithWork, entryFor_eq acceptable countPos widthPos, empty]
  rfl

/-- A query meets no fault on its way from the entry point: its layers present
the runs. -/
structure Navigable (index : Index σ) (runs : Runs) (query : Coordinates)
    (entryPoint : PointId) : Prop where
  presents : ∀ level, (Layer.of index.cloud index.links query level).Presents
    (index.links.Reaches level) (index.terrain runs query level)
  entry_eq : index.entryPoint = some entryPoint
  entry_reaches : index.links.Reaches index.topLevel entryPoint

namespace Navigable

/-- The descent of a query ends at a point, with the distance of that
point. -/
theorem descent_eq (navigable : index.Navigable runs query entryPoint) :
    index.descent query = .ok (index.descended runs query entryPoint) ∧
      index.links.Reaches 0 (index.descended runs query entryPoint).1.id ∧
      (index.descended runs query entryPoint).1 = index.cloud.hit query
        (index.descended runs query entryPoint).1.id := by
  have measured := (navigable.presents index.topLevel).distance_eq
    navigable.entry_reaches
  change index.cloud.distanceTo entryPoint query = _ at measured
  obtain ⟨descended, reaches, marked⟩ :=
    descend_eq index.links.Reaches (index.cloud.reach query)
      (fun reaches below => Links.Reaches.of_le reaches below) (fun _ => rfl)
      (Layer.of index.cloud index.links query)
      (fun level (_ : 0 < level) => navigable.presents level)
      (fun _ => Nat.lt_succ_self index.size) (index.cloud.hit query entryPoint)
      navigable.entry_reaches rfl
  rw [Nat.zero_min] at reaches
  refine ⟨?_, reaches, ?_⟩
  · simp only [descent, navigable.entry_eq, measured, ok_bind]
    exact descended
  · exact congrArg (Hit.mk · _) marked

theorem beam_eq (navigable : index.Navigable runs query entryPoint)
    (width : Nat) :
    ∃ beam, index.beam query width = .ok beam ∧
      beam.Tracks (index.course runs query entryPoint width) ∧
      (index.course runs query entryPoint width).stopped width = true := by
  obtain ⟨descended, reaches, _⟩ := navigable.descent_eq
  obtain ⟨beam, searched, tracks, stopped⟩ := Layer.search_eq
    (navigable.presents 0) [(index.descended runs query entryPoint).1]
    (fun hit member => List.mem_singleton.mp member ▸ reaches) width
  refine ⟨beam, ?_, tracks, stopped⟩
  simp only [Index.beam, descended, ok_bind, searched]

theorem searchWithWork_eq (navigable : index.Navigable runs query entryPoint)
    (acceptable : Acceptable index.cloud.dimension query) {count width : Nat}
    (countPos : 1 ≤ count) (widthPos : 1 ≤ width) :
    index.searchWithWork query count width = .ok
      ((index.course runs query entryPoint (max width count)).kept.take count,
        { distances := 1, visited := 0, hops := 0 } +
          (index.descended runs query entryPoint).2 +
          { distances :=
              (index.course runs query entryPoint (max width count)).measured
            visited := (index.course runs query entryPoint
              (max width count)).seen.length
            hops := (index.course runs query entryPoint
              (max width count)).expanded }) := by
  have accepted : index.entryFor query count width = .ok entryPoint := by
    rw [entryFor_eq acceptable countPos widthPos, navigable.entry_eq]
  have measured := (navigable.presents index.topLevel).distance_eq
    navigable.entry_reaches
  change index.cloud.distanceTo entryPoint query = _ at measured
  obtain ⟨beam, searched, tracks, _⟩ := navigable.beam_eq (max width count)
  obtain ⟨descended, _, _⟩ := navigable.descent_eq
  simp only [Index.beam, descended, ok_bind] at searched
  simp only [descent, navigable.entry_eq, measured, ok_bind] at descended
  simp only [searchWithWork, accepted, measured, descended, searched,
    bind, Except.bind, pure, Except.pure, liftM, monadLift, MonadLift.monadLift,
    Except.mapError, tracks.kept_eq]
  unfold Beam.work
  rw [tracks.measured_eq, tracks.size_eq, tracks.expanded_eq]

end Navigable

namespace Sound

theorem presents (sound : index.Sound runs)
    (acceptable : Acceptable index.cloud.dimension query) (level : Nat) :
    (Layer.of index.cloud index.links query level).Presents
      (index.links.Reaches level) (index.terrain runs query level) :=
  sound.represents.presents index.cloud query sound.proper
    (fun reaches => sound.cloud.distanceTo_eq acceptable
      (sound.lt_size reaches)) level

theorem comparable (sound : index.Sound runs)
    (acceptable : Acceptable index.cloud.dimension query) (level : Nat) :
    (index.terrain runs query level).Comparable
      (index.links.Reaches level) :=
  fun firstReaches secondReaches => sound.cloud.reach_lt_iff acceptable
    (sound.lt_size firstReaches) (sound.lt_size secondReaches)

theorem navigable (sound : index.Sound runs)
    (acceptable : Acceptable index.cloud.dimension query)
    (entry : index.entryPoint = some entryPoint) :
    index.Navigable runs query entryPoint where
  presents := sound.presents acceptable
  entry_eq := entry
  entry_reaches := sound.entry_reaches entry

theorem searchWidth_eq (sound : index.Sound runs)
    (acceptable : Acceptable index.cloud.dimension query)
    (entry : index.entryPoint = some entryPoint) {count width : Nat}
    (countPos : 1 ≤ count) (widthPos : 1 ≤ width) :
    index.searchWidth query count width = .ok
      ((index.course runs query entryPoint (max width count)).kept.take
        count) := by
  simp only [searchWidth, (sound.navigable acceptable
    entry).searchWithWork_eq acceptable countPos widthPos, ok_bind]
  rfl

theorem course_sound (sound : index.Sound runs)
    (acceptable : Acceptable index.cloud.dimension query)
    (entry : index.entryPoint = some entryPoint) (width : Nat) :
    (index.course runs query entryPoint width).Sound
      (index.terrain runs query 0) (index.links.Reaches 0) width := by
  obtain ⟨_, reaches, marked⟩ :=
    (sound.navigable acceptable entry).descent_eq
  refine Sweep.Sound.advance ?_ (sound.comparable acceptable 0)
    (fun reaches member => sound.proper.reaches reaches member) _
  refine Sweep.Sound.ofSeeds (fun hit member => ?_) (fun hit member => ?_)
  · rw [List.mem_singleton.mp member]
    exact marked
  · rwa [List.mem_singleton.mp member]

end Sound

end Index

end SmallWorld
