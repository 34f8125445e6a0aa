import SmallWorld.Proofs.Index.Edges
import SmallWorld.Proofs.Index.Structure

/-!
# Insertion as a plan

An insertion searches and links level by level, on a graph that it changes as
it goes.  What comes out is nevertheless what could have been planned on the
graph as it was: the searches never meet the new point, and the links of one
level do not disturb the search of another.  `Reachable.insert_arrives` says
what the plan is (`Surveys`) and what an insertion makes of it (`Arrives`).
-/

namespace SmallWorld

/-- The neighbours that a run of the given points selects for its owner, the
nearest points first. -/
def Cloud.reselection (cloud : Cloud) (owner : PointId) (ids : List PointId)
    (capacity : Nat) (backfill : Bool) : Except Fault (List PointId) := do
  let candidates ← ids.mapM fun id => do
    let distance ← cloud.distanceBetween owner id
    pure ({ distance, id } : Hit)
  cloud.chooseNeighbors owner (Hit.sort candidates) capacity backfill

theorem Cloud.IsSound.reselection_eq {cloud : Cloud} (sound : cloud.IsSound)
    {owner : PointId} (ownerInside : owner < cloud.size) {ids : List PointId}
    (idsInside : ∀ id ∈ ids, id < cloud.size) (capacity : Nat)
    (backfill : Bool) :
    cloud.reselection owner ids capacity backfill =
      .ok (Distances.select cloud.apart owner
        (Distances.ranked cloud.apart owner ids) capacity backfill) := by
  have measured : ids.mapM (fun id => do
        let distance ← cloud.distanceBetween owner id
        pure ({ distance, id } : Hit)) =
      Except.ok (ids.map fun id =>
        { distance := cloud.apart owner id, id }) := by
    refine mapM_eq_ok fun id member => ?_
    rw [sound.distanceBetween_eq ownerInside (idsInside id member)]
    rfl
  rw [reselection, measured, ok_bind, Distances.sort_eq_ranked]
  exact cloud.chooseNeighbors_eq (· < cloud.size) sound.distanceBetween_eq
    owner (fun hit member =>
      idsInside hit.id (Distances.id_mem_of_mem_ranked member)) _ _

namespace Index

variable {σ : Type} {index next : Index σ} {runs : Runs}
  {vector : Coordinates} {entryPoint id : PointId} {own level : Nat}

/-- Where the searches for a vector of the given level start: the end of a
descent from the entry point through the levels above. -/
def landing (index : Index σ) (vector : Coordinates) (own : Nat) :
    Except Fault Hit :=
  match index.entryPoint with
  | none => .error .outOfBounds
  | some entryPoint => do
      let distance ← index.cloud.distanceTo entryPoint vector
      let (final, _) ← descend (Layer.of index.cloud index.links vector) own
        index.topLevel { distance, id := entryPoint }
      pure final

def scout (index : Index σ) (vector : Coordinates) (level : Nat)
    (start : Hit) : Except Fault (List Hit) := do
  let beam ← (Layer.of index.cloud index.links vector level).search [start]
    index.settings.constructionWidth
  pure beam.kept

/-- What is found for a vector of the given level on each level that the index
has.  The highest search starts where the descent ends, and each further one
at the best hit of the one before. -/
structure Surveys (index : Index σ) (vector : Coordinates) (own : Nat)
    (found : Nat → List Hit) : Prop where
  highest : ∃ start, index.landing vector own = .ok start ∧
    index.scout vector (min own index.topLevel) start =
      .ok (found (min own index.topLevel))
  lower : ∀ level < min own index.topLevel, ∃ start,
    (found (level + 1)).head? = some start ∧
      index.scout vector level start = .ok (found level)

/-- What becomes of an index when a vector arrives for which the given hits are
found. -/
structure Arrives [UniformSource σ] (index : Index σ) (vector : Coordinates)
    (own : Nat) (found : Nat → List Hit) (next : Index σ) : Prop where
  gains : index.Gains vector next
  level_eq : next.levelOf? index.size = some own
  /-- The new point lists what it selects among the hits, in that order. -/
  selects : ∀ level ≤ min own index.topLevel, ∃ capacity run,
    index.links.table.capacity level = .ok capacity ∧
      index.cloud.chooseNeighbors index.size (found level) capacity
        (level == 0) = .ok run ∧
      next.neighbors? index.size level = .ok (some run)
  /-- On levels that the index did not have it is alone. -/
  alone : ∀ level ≤ own, index.topLevel < level →
    next.neighbors? index.size level = .ok (some [])
  /-- A run stays as it is unless the new point lists its owner. -/
  keeps : ∀ {id level : Nat} {before : List PointId},
    index.neighbors? id level = .ok (some before) →
    ¬ next.Lists level index.size id →
      next.neighbors? id level = .ok (some before)
  /-- If it does, the run takes the new point in, or selects its neighbours
  anew when it is full. -/
  joins : ∀ {id level : Nat} {before : List PointId},
    index.neighbors? id level = .ok (some before) →
    next.Lists level index.size id → ∃ capacity after,
      index.links.table.capacity level = .ok capacity ∧
      next.neighbors? id level = .ok (some after) ∧
      if before.length < capacity then
        after = before ++ [index.size]
      else
        next.cloud.reselection id (before ++ [index.size]) capacity
          (level == 0) = .ok after
  /-- No edge between two old points is added. -/
  lists_of_lists : ∀ {level first second : Nat}, first < index.size →
    second < index.size → next.Lists level first second →
      index.Lists level first second
  old_eq : ∀ id < index.size, next.levelOf? id = index.levelOf? id ∧
    next.vector? id = index.vector? id
  offset_eq : ∀ position ≤ index.size,
    next.links.offset position = index.links.offset position

/-- The hits among which a vector selects its neighbours at a level. -/
def hits (index : Index σ) (runs : Runs) (vector : Coordinates)
    (entryPoint : PointId) (own level : Nat) : List Hit :=
  (index.placement vector).candidates (runs.clear index.size) level
    (index.approach runs vector entryPoint own level)

theorem distance_of_lt (inside : id < index.size) (vector : Coordinates) :
    (index.placement vector).distance id = index.cloud.reach vector id :=
  (Cloud.apart_push_size index.cloud vector id).trans
    (Cloud.reach_push_of_lt inside vector)

/-- Above its own level and above the top level the new point has no
neighbours. -/
theorem grown_size_of_lt (entry : index.entryPoint = some entryPoint)
    (above : min own index.topLevel < level) :
    index.grown runs vector own index.size level = [] := by
  rw [grown_of_lt entry above]
  exact if_pos rfl

/-- A new point has neighbours only where it is linked. -/
theorem le_of_mem_grown_size (entry : index.entryPoint = some entryPoint)
    (member : id ∈ index.grown runs vector own index.size level) :
    level ≤ min own index.topLevel := by
  by_contra above
  rw [grown_size_of_lt entry (not_le.mp above)] at member
  cases member

namespace Sound

variable (sound : index.Sound runs)
  (acceptable : Acceptable index.cloud.dimension vector)
include sound acceptable

/-- A search for a vector sees the same before and after the vector is
stored. -/
theorem presents_clear (level : Nat) :
    (Layer.of index.cloud index.links vector level).Presents
      (index.links.Reaches level)
      ((index.placement vector).terrain (runs.clear index.size) level) where
  neighbors_eq := by
    intro id reaches
    change _ = Except.ok (runs.clear index.size id level)
    rw [clear_of_reaches sound.size_eq reaches]
    exact sound.represents.neighbors_eq reaches
  distance_eq := by
    intro id reaches
    have inside : id < index.size := sound.lt_size reaches
    change _ = Except.ok ((index.placement vector).distance id)
    rw [distance_of_lt inside]
    exact sound.cloud.distanceTo_eq acceptable inside
  closed := by
    intro id neighbor reaches member
    change neighbor ∈ runs.clear index.size id level at member
    rw [clear_of_reaches sound.size_eq reaches] at member
    exact sound.proper.reaches reaches member

theorem landing_eq (entry : index.entryPoint = some entryPoint) (own : Nat) :
    index.landing vector own = .ok (index.approach runs vector entryPoint own
      (min own index.topLevel)) := by
  have reaches := sound.entry_reaches entry
  have measured : index.cloud.distanceTo entryPoint vector =
      .ok ((index.placement vector).distance entryPoint) :=
    (sound.presents_clear acceptable index.topLevel).distance_eq reaches
  obtain ⟨descended, _⟩ := descend_eq index.links.Reaches
    (index.placement vector).distance
    (fun reaches below => Links.Reaches.of_le reaches below) (fun _ => rfl)
    (Layer.of index.cloud index.links vector)
    (fun level (_ : own < level) => sound.presents_clear acceptable level)
    (fun _ => show index.size < (index.placement vector).size + 1 from
      Nat.lt_succ_of_lt (Nat.lt_succ_self index.size))
    { distance := (index.placement vector).distance entryPoint
      id := entryPoint } reaches rfl
  simp only [landing, entry, measured, ok_bind, descended, approach,
    Placement.startAt_self]
  rfl

variable (entry : index.entryPoint = some entryPoint)
  (below : level ≤ min own index.topLevel)
include entry below

/-- The search of a level comes to an end, and finds the hits. -/
theorem search_eq_hits : ∃ beam,
    (Layer.of index.cloud index.links vector level).search
        [index.approach runs vector entryPoint own level]
        index.settings.constructionWidth = .ok beam ∧
      beam.kept = index.hits runs vector entryPoint own level ∧
      (((index.placement vector).terrain (runs.clear index.size) level).sweep
        (index.placement vector).size (index.placement vector).width
        [index.approach runs vector entryPoint own level]).stopped
          (index.placement vector).width = true := by
  have among := sound.approach_startsAmong acceptable entry below
  obtain ⟨beam, searched, tracks, stopped⟩ := Layer.search_eq
    (sound.presents_clear acceptable level)
    [index.approach runs vector entryPoint own level]
    (fun hit member => List.mem_singleton.mp member ▸ among.start_inside)
    index.settings.constructionWidth
  have longer := Terrain.sweep_of_le stopped (Nat.le_succ index.size)
  exact ⟨beam, searched,
    tracks.kept_eq.trans (congrArg Sweep.kept longer.symm),
    (congrArg (Sweep.stopped _) longer).trans stopped⟩

theorem scout_eq : index.scout vector level
    (index.approach runs vector entryPoint own level) =
      .ok (index.hits runs vector entryPoint own level) := by
  obtain ⟨beam, searched, kept, _⟩ :=
    sound.search_eq_hits acceptable entry below
  simp only [scout, searched, ok_bind, kept]
  rfl

/-- The new point selects its neighbours with the distances that the old ones
have. -/
theorem chooseNeighbors_hits :
    index.cloud.chooseNeighbors index.size
        (index.hits runs vector entryPoint own level)
        (index.links.table.runLength level) (level == 0) =
      .ok (index.selection runs vector entryPoint own level) := by
  have among := sound.approach_startsAmong acceptable entry below
  refine index.cloud.chooseNeighbors_eq (index.links.Reaches level) ?_
    index.size (fun hit member => (among.candidates_inside hit member).1) _ _
  intro first second firstReaches secondReaches
  have firstInside := sound.lt_size firstReaches
  have secondInside := sound.lt_size secondReaches
  rw [sound.cloud.distanceBetween_eq firstInside secondInside]
  exact congrArg Except.ok
    (Cloud.apart_push_of_lt firstInside secondInside vector).symm

omit below

theorem surveys (own : Nat) : index.Surveys vector own
    (index.hits runs vector entryPoint own) where
  highest := ⟨_, sound.landing_eq acceptable entry own,
    sound.scout_eq acceptable entry (Nat.le_refl _)⟩
  lower := by
    intro level below
    have among := sound.approach_startsAmong acceptable entry
      (show level + 1 ≤ min own index.topLevel from below)
    obtain ⟨start, rest, found⟩ := List.exists_cons_of_ne_nil
      (among.candidates_ne_nil sound.settings.2.1)
    have next : index.approach runs vector entryPoint own level = start := by
      rw [approach, Placement.startAt_of_lt below]
      exact congrArg (List.headD · _) found
    exact ⟨start, congrArg List.head? found,
      next ▸ sound.scout_eq acceptable entry below.le⟩

/-- Whether an old run changes depends on the run of the new point. -/
theorem grown_old (own : Nat) (reaches : index.links.Reaches level id) :
    index.grown runs vector own id level =
      if id ∈ index.grown runs vector own index.size level then
        (index.placement vector).apart.offerTo id index.size
          (index.links.table.runLength level) (level == 0) (runs id level)
      else
        runs id level := by
  rcases Nat.lt_or_ge (min own index.topLevel) level with above | below
  · rw [grown_size_of_lt entry above, if_neg List.not_mem_nil,
      grown_of_lt entry above]
    exact clear_of_reaches sound.size_eq reaches level
  · rw [sound.grown_size acceptable entry below]
    exact sound.grown_other acceptable entry below reaches

end Sound

theorem Gains.apart_eq [UniformSource σ] (gains : index.Gains vector next) :
    (index.placement vector).apart = next.cloud.apart := by
  rw [gains.cloud_eq]
  rfl

theorem Gains.size_lt [UniformSource σ] (gains : index.Gains vector next) :
    index.size < next.cloud.size :=
  Nat.lt_of_lt_of_eq (Nat.lt_succ_self index.size) gains.size_eq.symm

/-- The arrival of a point leaves the levels and the vectors of the others as
they are. -/
theorem Gains.old_eq [UniformSource σ] (gains : index.Gains vector next)
    (size : index.size = index.links.size) (inside : id < index.size) :
    next.levelOf? id = index.levelOf? id ∧
      next.vector? id = index.vector? id := by
  constructor
  · rw [levelOf?, levelOf?, gains.levels_eq]
    exact (Array.getElem?_push_lt (inside.trans_eq size)).trans
      (Array.getElem?_eq_getElem _).symm
  · rw [vector?, vector?, gains.cloud_eq]
    exact (Array.getElem?_push_lt inside).trans
      (Array.getElem?_eq_getElem _).symm

section Arrival

variable [UniformSource σ] (sound : index.Sound runs)
  (gains : index.Gains vector next)
  (drawn : (index.links.table.draw index.source).1 = own)
  (sound' : next.Sound (index.grown runs vector own))
include sound gains

theorem Gains.reaches_of_reaches (reaches : index.links.Reaches level id) :
    next.links.Reaches level id :=
  (gains.reaches_iff sound.size_eq).mpr (Or.inl reaches)

theorem Gains.lt_size (reaches : index.links.Reaches level id) :
    id < next.cloud.size :=
  (show id < index.size from sound.lt_size reaches).trans gains.size_lt

/-- A full run selects anew from points that the index has in the end. -/
theorem Gains.reselection_eq (cloud : next.cloud.IsSound)
    (reaches : index.links.Reaches level id) (capacity : Nat)
    (backfill : Bool) :
    next.cloud.reselection id (runs id level ++ [index.size]) capacity
        backfill =
      .ok ((index.placement vector).apart.select id
        ((index.placement vector).apart.ranked id
          (runs id level ++ [index.size])) capacity backfill) := by
  rw [gains.apart_eq]
  refine cloud.reselection_eq (gains.lt_size sound reaches)
    (fun other member => ?_) _ _
  rcases List.mem_append.mp member with old | new
  · exact gains.lt_size sound (sound.proper.reaches reaches old)
  · exact List.mem_singleton.mp new ▸ gains.size_lt

include drawn

theorem Gains.reaches_size (low : level ≤ own) :
    next.links.Reaches level index.size :=
  (gains.reaches_iff sound.size_eq).mpr (Or.inr ⟨rfl, drawn ▸ low⟩)

theorem Gains.offset_eq (laid : next.links.Laid) {position : Nat}
    (inside : position ≤ index.size) :
    next.links.offset position = index.links.offset position := by
  have before : position ≤ index.links.size := inside.trans_eq sound.size_eq
  have start : next.links.blockStart =
      (index.links.extended own).blockStart :=
    Links.blockStart_congr gains.table_eq
      (gains.levels_eq.trans (drawn ▸ rfl))
  have after : position ≤ next.links.size := by
    rw [Links.size, gains.levels_eq, Array.size_push]
    exact Nat.le_succ_of_le before
  rw [Links.offset, Links.offset,
    sound.represents.laid.offset_eq position before,
    laid.offset_eq position after, start, Links.blockStart_extended before]

include sound'

theorem Gains.lists_size_iff (entry : index.entryPoint = some entryPoint) :
    next.Lists level index.size id ↔
      id ∈ index.grown runs vector own index.size level :=
  sound'.lists_iff.trans ⟨And.right, fun member =>
    ⟨gains.reaches_size sound drawn ((le_of_mem_grown_size entry
      member).trans (Nat.min_le_left _ _)), member⟩⟩

theorem Sound.arrives (acceptable : Acceptable index.cloud.dimension vector)
    (entry : index.entryPoint = some entryPoint) :
    index.Arrives vector own (index.hits runs vector entryPoint own)
      next where
  gains := gains
  level_eq := by
    rw [levelOf?, gains.levels_eq, drawn]
    exact sound.getElem?_push_size own
  selects := by
    intro level below
    refine ⟨_, _, ?_, sound.chooseNeighbors_hits acceptable entry below, ?_⟩
    · exact sound.represents.laid.capacity_eq
        ((sound.entry_reaches entry).of_le (below.trans (Nat.min_le_right _ _)))
    · rw [sound'.neighbors?_eq (gains.reaches_size sound drawn
        (below.trans (Nat.min_le_left _ _))),
        sound.grown_size acceptable entry below]
  alone := by
    intro level low above
    rw [sound'.neighbors?_eq (gains.reaches_size sound drawn low),
      grown_size_of_lt entry ((Nat.min_le_right _ _).trans_lt above)]
  keeps := by
    intro id level before listed unlisted
    have reaches := reaches_of_neighbors? listed
    rw [gains.lists_size_iff sound drawn sound' entry] at unlisted
    rw [sound'.neighbors?_eq (gains.reaches_of_reaches sound reaches),
      sound.grown_old acceptable entry own reaches, if_neg unlisted,
      ← sound.neighbors?_eq reaches, listed]
  joins := by
    intro id level before listed joined
    have reaches := reaches_of_neighbors? listed
    have different : id ≠ index.size := fun same =>
      sound.not_reaches_size (same ▸ reaches)
    have absent : index.size ∉ runs id level := sound.size_notMem reaches
    rw [sound.neighbors?_eq reaches] at listed
    cases listed
    rw [gains.lists_size_iff sound drawn sound' entry] at joined
    refine ⟨_, _, sound.represents.laid.capacity_eq reaches,
      sound'.neighbors?_eq (gains.reaches_of_reaches sound reaches), ?_⟩
    rw [sound.grown_old acceptable entry own reaches, if_pos joined]
    split
    · next room => exact Distances.offerTo_of_room different absent room
    · next full =>
        rw [Distances.offerTo_of_full different absent (not_lt.mp full)]
        exact gains.reselection_eq sound sound'.cloud reaches _ _
  lists_of_lists := by
    intro level first second firstOld secondOld lists
    obtain ⟨reaches, member⟩ := sound'.lists_iff.mp lists
    have old := ((gains.reaches_iff sound.size_eq).mp reaches).resolve_right
      fun new => Nat.ne_of_lt firstOld new.1
    rw [sound.grown_old acceptable entry own old] at member
    refine sound.lists_iff.mpr ⟨old, ?_⟩
    split at member
    · exact (Distances.mem_of_mem_offerTo member).resolve_right
        fun new => Nat.ne_of_lt secondOld new.1
    · exact member
  old_eq := fun id inside => gains.old_eq sound.size_eq inside
  offset_eq := fun position inside =>
    gains.offset_eq sound drawn sound'.represents.laid inside

end Arrival

/-- The table of an index with points lists their levels. -/
theorem Sound.count_pos (sound : index.Sound runs)
    (nonempty : 0 < index.size) : 0 < index.links.table.count := by
  obtain ⟨entryPoint, entry⟩ := sound.exists_entry nonempty
  exact (Nat.zero_le _).trans_lt (sound.represents.laid.listed _
    (Array.mem_of_getElem? (sound.entry_onTop entry).1))

/-- In an index with points, the insertion of an accepted vector succeeds. -/
theorem Reachable.exists_insert [UniformSource σ]
    (reachable : index.Reachable) (nonempty : 0 < index.size)
    (accepted : requireAcceptable index.dimension vector = .ok ())
    (room : requireRoom index.size 1 = .ok ()) :
    ∃ runs entryPoint next, index.Sound runs ∧
      Acceptable index.cloud.dimension vector ∧
      index.entryPoint = some entryPoint ∧
      (index.insert vector).outcome = .ok (index.size, next) ∧
      index.Gains vector next ∧
      next.Sound (index.grown runs vector
        (index.links.table.draw index.source).1) := by
  obtain ⟨runs, sound⟩ := reachable.sound
  obtain ⟨entryPoint, entry⟩ := sound.exists_entry nonempty
  have acceptable : Acceptable index.cloud.dimension vector :=
    requireAcceptable_eq_ok_iff.mp accepted
  have here : index.size < greatestSize := by
    have := requireRoom_eq_ok_iff.mp room
    omega
  obtain ⟨next, placed, gains, sound'⟩ :=
    sound.place acceptable here (sound.count_pos nonempty)
  exact ⟨runs, entryPoint, next, sound, acceptable, entry,
    (insert_eq_place acceptable here).trans placed, gains, sound'⟩

/-- An insertion does what can be planned beforehand: where the new point is
linked is decided by searches of the graph as it was, and beyond that only the
runs change whose owners it lists. -/
theorem Reachable.insert_arrives [UniformSource σ]
    (reachable : index.Reachable) (nonempty : 0 < index.size)
    (accepted : requireAcceptable index.dimension vector = .ok ())
    (room : requireRoom index.size 1 = .ok ()) :
    ∃ found next, (index.insert vector).outcome = .ok (index.size, next) ∧
      index.Surveys vector (index.links.table.draw index.source).1 found ∧
      index.Arrives vector (index.links.table.draw index.source).1 found
        next := by
  obtain ⟨runs, entryPoint, next, sound, acceptable, entry, inserted, gains,
    sound'⟩ := reachable.exists_insert nonempty accepted room
  exact ⟨_, next, inserted, sound.surveys acceptable entry _,
    sound.arrives gains rfl sound' acceptable entry⟩

theorem line_insert_arrives : ∃ line : Index (Cycle Float),
    line.Reachable ∧ line.size = 6 ∧
    requireAcceptable line.dimension [Scalar.one] = .ok () ∧
    requireRoom line.size 1 = .ok () ∧
    ∃ found next, (line.insert [Scalar.one]).outcome = .ok (6, next) ∧
      line.Surveys [Scalar.one] (line.links.table.draw line.source).1 found ∧
      line.Arrives [Scalar.one] (line.links.table.draw line.source).1 found
        next := by
  obtain ⟨line, isLine⟩ := exists_isLine
  have size := isLine.size_eq
  have accepted := isLine.accepted [Scalar.one] (by decide +kernel)
  refine ⟨line, isLine.reachable, size, accepted, isLine.room, ?_⟩
  rw [← size]
  exact isLine.reachable.insert_arrives isLine.size_pos accepted isLine.room

end Index

end SmallWorld
