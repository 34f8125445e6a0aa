import SmallWorld.Proofs.Links.Offer
import SmallWorld.Proofs.Traversal.Invariant

/-!
# Linking a new point

What the insertion of a point does to the runs, level by level: a sweep finds
the candidates, a selection of them is connected with the point, and the
nearest candidate is where the sweep of the next level starts.
-/

namespace SmallWorld

/-- One level of the runs with the distances to a query. -/
def Runs.terrain (runs : Runs) (distance : PointId → Scalar) (level : Nat) :
    Terrain where
  adjacent id := runs id level
  distance

/-- What the links of a new point depend on: the distances of all points, the
number of points, the new one included, the width of the sweeps and the
capacity of the runs. -/
structure Placement where
  id : PointId
  apart : Distances
  size : Nat
  width : Nat
  capacity : Nat → Nat

namespace Placement

def distance (placement : Placement) (other : PointId) : Scalar :=
  placement.apart other placement.id

def terrain (placement : Placement) (runs : Runs) (level : Nat) : Terrain :=
  runs.terrain placement.distance level

/-- The candidates of a level, nearest first. -/
def candidates (placement : Placement) (runs : Runs) (level : Nat)
    (start : Hit) : List Hit :=
  ((placement.terrain runs level).sweep placement.size placement.width
    [start]).kept

def selected (placement : Placement) (runs : Runs) (level : Nat)
    (start : Hit) : List PointId :=
  placement.apart.select placement.id
    (placement.candidates runs level start) (placement.capacity level)
    (level == 0)

def linkLevel (placement : Placement) (runs : Runs) (level : Nat)
    (start : Hit) : Runs :=
  runs.connect placement.apart placement.capacity placement.id level
    (placement.selected runs level start)

/-- Where the sweep of the next level starts. -/
def nextStart (placement : Placement) (runs : Runs) (level : Nat)
    (start : Hit) : Hit :=
  (placement.candidates runs level start).headD start

def linkLevels (placement : Placement) :
    (level : Nat) → Hit → Runs → Runs
  | 0, start, runs => placement.linkLevel runs 0 start
  | level + 1, start, runs =>
      placement.linkLevels level (placement.nextStart runs (level + 1) start)
        (placement.linkLevel runs (level + 1) start)

/-- The placement is about the points of some links, and their distances are
those of the cloud and of the vector of the new point. -/
structure Fits (placement : Placement) (links : Links) (cloud : Cloud)
    (vector : Coordinates) : Prop where
  size_eq : cloud.size = placement.size
  capacity_eq : links.table.runLength = placement.capacity
  measured : links.Measured cloud placement.apart
  distanceTo_eq : ∀ {id}, links.Reaches 0 id →
    cloud.distanceTo id vector = .ok (placement.distance id)
  comparable : ∀ {first second}, links.Reaches 0 first →
    links.Reaches 0 second →
      (placement.distance first < placement.distance second ↔
        (placement.distance first).rank < (placement.distance second).rank)

/-- A search at a level starts at one of the given points and stays among
them, and their distances compare. -/
structure StartsAmong (placement : Placement) (runs : Runs) (level : Nat)
    (inside : PointId → Prop) (start : Hit) : Prop where
  comparable : (placement.terrain runs level).Comparable inside
  closed : ∀ {id neighbor}, inside id → neighbor ∈ runs id level →
    inside neighbor
  start_inside : inside start.id
  start_marked : start.distance = placement.distance start.id

namespace StartsAmong

variable {placement : Placement} {runs : Runs} {level : Nat}
  {inside : PointId → Prop} {start : Hit}

theorem sweep_sound
    (startsAmong : placement.StartsAmong runs level inside start) :
    ((placement.terrain runs level).sweep placement.size placement.width
      [start]).Sound (placement.terrain runs level) inside
        placement.width := by
  refine Sweep.Sound.advance ?_ startsAmong.comparable startsAmong.closed _
  refine Sweep.Sound.ofSeeds (fun hit member => ?_) (fun hit member => ?_)
  · rw [List.mem_singleton.mp member]
    exact congrArg (Hit.mk · start.id) startsAmong.start_marked
  · rw [List.mem_singleton.mp member]
    exact startsAmong.start_inside

theorem candidates_inside
    (startsAmong : placement.StartsAmong runs level inside start) :
    ∀ hit ∈ placement.candidates runs level start,
      inside hit.id ∧ hit.distance = placement.distance hit.id := by
  intro hit member
  obtain ⟨seen, marked⟩ :=
    Terrain.mem_hits.mp (startsAmong.sweep_sound.kept_seen hit member)
  exact ⟨startsAmong.sweep_sound.seen_inside _ seen,
    congrArg Hit.distance marked⟩

theorem candidates_nodup
    (startsAmong : placement.StartsAmong runs level inside start) :
    ((placement.candidates runs level start).map Hit.id).Nodup := by
  refine startsAmong.sweep_sound.kept_nodup.map_on ?_
  intro first firstKept second secondKept same
  have firstMarked := (Terrain.mem_hits.mp
    (startsAmong.sweep_sound.kept_seen first firstKept)).2
  have secondMarked := (Terrain.mem_hits.mp
    (startsAmong.sweep_sound.kept_seen second secondKept)).2
  rw [firstMarked, secondMarked, same]

/-- The start is seen, so there is a candidate if one may be kept. -/
theorem candidates_ne_nil
    (startsAmong : placement.StartsAmong runs level inside start)
    (widthPos : 0 < placement.width) :
    placement.candidates runs level start ≠ [] := by
  have seen : (Sweep.ofSeeds placement.width [start]).seen.length ≤
      ((placement.terrain runs level).sweep placement.size placement.width
        [start]).seen.length :=
    (Sweep.before_advance _ _).seen_suffix.length_le
  apply List.ne_nil_of_length_pos
  rw [Placement.candidates, startsAmong.sweep_sound.kept_length]
  exact lt_min widthPos seen

theorem nextStart_inside
    (startsAmong : placement.StartsAmong runs level inside start) :
    inside (placement.nextStart runs level start).id ∧
      (placement.nextStart runs level start).distance =
        placement.distance (placement.nextStart runs level start).id := by
  rw [Placement.nextStart]
  cases found : placement.candidates runs level start with
  | nil => exact ⟨startsAmong.start_inside, startsAmong.start_marked⟩
  | cons first rest =>
      exact startsAmong.candidates_inside first (found ▸ List.mem_cons_self)

theorem selected_inside
    (startsAmong : placement.StartsAmong runs level inside start) :
    ∀ neighbor ∈ placement.selected runs level start, inside neighbor := by
  intro neighbor member
  obtain ⟨_, hit, listed, rfl⟩ := Distances.mem_of_mem_select member
  exact (startsAmong.candidates_inside hit listed).1

theorem selected_nodup
    (startsAmong : placement.StartsAmong runs level inside start) :
    (placement.selected runs level start).Nodup :=
  Distances.select_nodup startsAmong.candidates_nodup

/-- A point that is not among the others finds a neighbour there. -/
theorem selected_ne_nil
    (startsAmong : placement.StartsAmong runs level inside start)
    (outside : ¬ inside placement.id) (widthPos : 0 < placement.width)
    (room : placement.capacity level ≠ 0) :
    placement.selected runs level start ≠ [] := by
  have first : (placement.selected runs level start).head? =
      (Distances.others placement.id
        (placement.candidates runs level start)).head? :=
    Distances.head?_select room _
  intro none
  rw [none, List.head?_nil, eq_comm, List.head?_eq_none_iff] at first
  obtain ⟨hit, rest, found⟩ :=
    List.exists_cons_of_ne_nil (startsAmong.candidates_ne_nil widthPos)
  have hitInside := (startsAmong.candidates_inside hit
    (found ▸ List.mem_cons_self)).1
  have other : hit.id ≠ placement.id := fun same => outside (same ▸ hitInside)
  rw [found, Distances.others_cons_of_ne other] at first
  exact List.cons_ne_nil _ _ first

end StartsAmong

end Placement

namespace Links

variable {links : Links} {runs : Runs} {cloud : Cloud}
  {vector query : Coordinates} {level : Nat}

theorem Represents.presents (cloud : Cloud) (query : Coordinates)
    (represents : links.Represents runs)
    (proper : runs.Proper links.Reaches) {distance : PointId → Scalar}
    (distanceTo_eq : ∀ {id}, links.Reaches 0 id →
      cloud.distanceTo id query = .ok (distance id)) (level : Nat) :
    (Layer.of cloud links query level).Presents (links.Reaches level)
      (runs.terrain distance level) where
  neighbors_eq := represents.neighbors_eq
  distance_eq := fun reaches => distanceTo_eq (reaches.of_le (Nat.zero_le _))
  closed := proper.reaches

variable {placement : Placement}

theorem startsAmong (fits : placement.Fits links cloud vector)
    (proper : runs.Proper links.Reaches) {start : Hit}
    (startReaches : links.Reaches level start.id)
    (startMarked : start.distance = placement.distance start.id) :
    placement.StartsAmong runs level (links.Reaches level) start where
  comparable firstReaches secondReaches := fits.comparable
    (firstReaches.of_le (Nat.zero_le _)) (secondReaches.of_le (Nat.zero_le _))
  closed := proper.reaches
  start_inside := startReaches
  start_marked := startMarked

section Level

variable (fits : placement.Fits links cloud vector)
  (idReaches : links.Reaches level placement.id) {slots : Array PointId}
  {runs : Runs} (represents : { links with slots }.Represents runs)
  (proper : runs.Proper links.Reaches) {start : Hit}
  (startReaches : links.Reaches level start.id)
  (startMarked : start.distance = placement.distance start.id)
include fits idReaches represents proper startReaches startMarked

/-- A search finds the candidates of a level, and a selection of them is
made. -/
theorem Represents.selected_eq : ∃ beam,
    (Layer.of cloud { links with slots } vector level).search [start]
        placement.width = .ok beam ∧
      beam.kept = placement.candidates runs level start ∧
      links.table.capacity level = .ok (placement.capacity level) ∧
      cloud.chooseNeighbors placement.id
          (placement.candidates runs level start) (placement.capacity level)
          (level == 0) = .ok (placement.selected runs level start) := by
  have among := startsAmong fits proper startReaches startMarked
  obtain ⟨beam, searched, tracks, _⟩ := Layer.search_eq
    (represents.presents cloud vector proper fits.distanceTo_eq level)
    [start]
    (fun hit member => List.mem_singleton.mp member ▸ startReaches)
    placement.width
  refine ⟨beam, searched, ?_, ?_, ?_⟩
  · rw [tracks.kept_eq]
    change (Terrain.sweep _ cloud.size _ _).kept = _
    rw [fits.size_eq]
    rfl
  · rw [← fits.capacity_eq]
    exact represents.laid.capacity_eq idReaches
  · exact cloud.chooseNeighbors_eq (links.Reaches 0) fits.measured
      placement.id
      (fun hit member =>
        (among.candidates_inside hit member).1.of_le (Nat.zero_le _))
      (placement.capacity level) (level == 0)

/-- Linking at one level changes the slots as it changes the runs. -/
theorem Represents.connectLevel_eq :
    ∃ slots', (connectLevel cloud placement.width placement.id vector level
        start { links with slots }).outcome =
          .ok (placement.nextStart runs level start,
            { links with slots := slots' }) ∧
      { links with slots := slots' }.Represents
        (placement.linkLevel runs level start) := by
  obtain ⟨beam, searched, kept, capacity, chosen⟩ := represents.selected_eq
    fits idReaches proper startReaches startMarked
  obtain ⟨slots', connected, represents'⟩ := Represents.connect_eq
    fits.measured idReaches
    (startsAmong fits proper startReaches startMarked).selected_inside
    represents proper
  rw [fits.capacity_eq] at represents'
  refine ⟨slots', ?_, represents'⟩
  simp only [connectLevel, Traced.outcome_bind, searched,
    Traced.outcome_lift_fault_ok, ok_bind, capacity, kept, chosen, connected]
  rfl

end Level

theorem proper_linkLevel (fits : placement.Fits links cloud vector)
    (idReaches : links.Reaches level placement.id)
    (proper : runs.Proper links.Reaches) {start : Hit}
    (startReaches : links.Reaches level start.id)
    (startMarked : start.distance = placement.distance start.id) :
    (placement.linkLevel runs level start).Proper links.Reaches :=
  Runs.Proper.connect placement.capacity idReaches
    (startsAmong fits proper startReaches startMarked).selected_inside proper

/-- Linking at all levels from one down changes the slots as it changes the
runs. -/
theorem Represents.connectLevels_eq
    (fits : placement.Fits links cloud vector)
    (idReaches : links.Reaches level placement.id) (slots : Array PointId)
    {runs : Runs} (represents : { links with slots }.Represents runs)
    (proper : runs.Proper links.Reaches) {start : Hit}
    (startReaches : links.Reaches level start.id)
    (startMarked : start.distance = placement.distance start.id) :
    ∃ slots', (connectLevels cloud placement.width placement.id vector level
        start { links with slots }).outcome =
          .ok { links with slots := slots' } ∧
      { links with slots := slots' }.Represents
        (placement.linkLevels level start runs) ∧
      (placement.linkLevels level start runs).Proper links.Reaches := by
  induction level generalizing start runs slots with
  | zero =>
      obtain ⟨slots', linked, represents'⟩ := Represents.connectLevel_eq fits
        idReaches represents proper startReaches startMarked
      refine ⟨slots', ?_, represents',
        proper_linkLevel fits idReaches proper startReaches startMarked⟩
      simp only [connectLevels, Traced.outcome_bind, linked, ok_bind,
        Traced.outcome_pure]
  | succ level inductionHypothesis =>
      obtain ⟨first, linked, represents'⟩ := Represents.connectLevel_eq fits
        idReaches represents proper startReaches startMarked
      have proper' :=
        proper_linkLevel fits idReaches proper startReaches startMarked
      obtain ⟨nextReaches, nextMarked⟩ :=
        (startsAmong fits proper startReaches startMarked).nextStart_inside
      obtain ⟨slots', further, represents'', proper''⟩ := inductionHypothesis
        (idReaches.of_le (Nat.le_succ _)) _ represents' proper'
        (nextReaches.of_le (Nat.le_succ _)) nextMarked
      refine ⟨slots', ?_, represents'', proper''⟩
      simp only [connectLevels, Traced.outcome_bind, linked, ok_bind,
        further]

end Links

end SmallWorld
