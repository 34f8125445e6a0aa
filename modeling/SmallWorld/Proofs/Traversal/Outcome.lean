import SmallWorld.Proofs.FiniteDistance
import SmallWorld.Proofs.Links.Paths
import SmallWorld.Proofs.Traversal.Ties

/-!
# The outcome of a search

A level can be walked for a query if its runs hold only points of the level
and these points have distances to the query.  Nothing more is needed for a
search to come to its end (`Walkable.search_eq`).  What it has seen then can
be reached from its seeds, and is all that can be reached unless the beam is
full (`Ended.kept_length`).
-/

namespace SmallWorld

namespace Layer

/-- The neighbours and the distances of a layer, where there are any. -/
def terrain (layer : Layer) : Terrain where
  adjacent id := (layer.neighbors id).toOption.getD []
  distance id := (layer.distance id).toOption.getD Scalar.infinity

variable {layer : Layer} {id neighbor : PointId}

theorem adjacent_eq {neighbors : List PointId}
    (listed : layer.neighbors id = .ok neighbors) :
    layer.terrain.adjacent id = neighbors := by
  simp only [terrain, listed, Except.toOption, Option.getD_some]

theorem distance_eq {distance : Scalar}
    (measured : layer.distance id = .ok distance) :
    layer.terrain.distance id = distance := by
  simp only [terrain, measured, Except.toOption, Option.getD_some]

theorem mem_adjacent : neighbor ∈ layer.terrain.adjacent id ↔
    ∃ neighbors, layer.neighbors id = .ok neighbors ∧
      neighbor ∈ neighbors := by
  cases listed : layer.neighbors id with
  | error fault =>
      simp [terrain, listed, Except.toOption]
  | ok neighbors =>
      rw [adjacent_eq listed]
      simp

end Layer

/-- Whether a point can be reached from one of the seeds along the runs of a
level. -/
def Links.LeadsFrom (links : Links) (level : Nat) (seeds : List Hit)
    (id : PointId) : Prop :=
  ∃ seed ∈ seeds, links.LeadsTo level seed.id id

/-- A level can be walked for a query: the runs of its points hold points of
the level, and these have distances. -/
structure Walkable (cloud : Cloud) (links : Links) (query : Coordinates)
    (level : Nat) : Prop where
  run : ∀ {id}, links.Reaches level id →
    ∃ neighbors, links.neighbors id level = .ok neighbors ∧
      ∀ neighbor ∈ neighbors, links.Reaches level neighbor
  distance : ∀ {id}, links.Reaches level id →
    ∃ distance, cloud.distanceTo id query = .ok distance

/-- Whether each seed is at a point of the level and has the distance of
that point. -/
def Seeded (cloud : Cloud) (links : Links) (query : Coordinates)
    (level : Nat) (seeds : List Hit) : Prop :=
  ∀ seed ∈ seeds, links.Reaches level seed.id ∧
    cloud.distanceTo seed.id query = .ok seed.distance

theorem Seeded.onLevel {cloud : Cloud} {links : Links} {query : Coordinates}
    {level : Nat} {seeds : List Hit}
    (seeded : Seeded cloud links query level seeds) :
    ∀ seed ∈ seeds, links.Reaches level seed.id :=
  fun seed listed => (seeded seed listed).1

theorem Cloud.distanceTo_compare {cloud : Cloud} {query : Coordinates}
    {first second : PointId} {near far : Scalar}
    (firstMeasured : cloud.distanceTo first query = .ok near)
    (secondMeasured : cloud.distanceTo second query = .ok far) :
    (near < far ↔ near.rank < far.rank) ∧
      (near ≤ far ↔ near.rank ≤ far.rank) := by
  obtain ⟨_, _, nearMeasured⟩ := bind_eq_ok_iff.mp firstMeasured
  obtain ⟨_, _, farMeasured⟩ := bind_eq_ok_iff.mp secondMeasured
  exact finiteDistance_compare nearMeasured farMeasured

theorem Layer.Presents.comparable {cloud : Cloud} {links : Links}
    {query : Coordinates} {level : Nat} {inside : PointId → Prop}
    {terrain : Terrain}
    (presents : (Layer.of cloud links query level).Presents inside terrain) :
    terrain.Comparable inside :=
  fun firstInside secondInside =>
    (Cloud.distanceTo_compare (presents.distance_eq firstInside)
      (presents.distance_eq secondInside)).1

namespace Sweep

structure Ended (terrain : Terrain) (inside : PointId → Prop) (width : Nat)
    (seeds : List Hit) (sweep : Sweep) : Prop where
  sound : sweep.Sound terrain inside width
  comparable : terrain.Comparable inside
  covered : sweep.Covered terrain fun _ => False
  stopped : sweep.stopped width = true
  seeds_seen : ∀ seed ∈ seeds, seed.id ∈ sweep.seen

namespace Ended

variable {terrain : Terrain} {inside : PointId → Prop} {width : Nat}
  {seeds : List Hit} {sweep : Sweep}

theorem seen_of_kept (ended : sweep.Ended terrain inside width seeds)
    {hit : Hit} (kept : hit ∈ sweep.kept) : hit.id ∈ sweep.seen :=
  (Terrain.mem_hits.mp (ended.sound.kept_seen hit kept)).1

theorem closed (ended : sweep.Ended terrain inside width seeds) {hit : Hit}
    (kept : hit ∈ sweep.kept) {neighbor : PointId}
    (edge : neighbor ∈ terrain.adjacent hit.id) : neighbor ∈ sweep.seen :=
  ended.sound.closed_of_stopped ended.comparable ended.covered ended.stopped
    kept neighbor edge

/-- The beam is full, or holds all points to which the seeds lead. -/
theorem kept_length (ended : sweep.Ended terrain inside width seeds)
    {region : List PointId} (distinct : region.Nodup)
    (region_iff : ∀ id, id ∈ region ↔ inside id)
    (leads : ∀ id, inside id → ∃ seed ∈ seeds, terrain.LeadsTo seed.id id) :
    sweep.kept.length = min width region.length := by
  have sound := ended.sound
  have subset : sweep.seen ⊆ region := fun id member =>
    (region_iff id).mpr (sound.seen_inside id member)
  have fewer := (sound.seen_nodup.subperm subset).length_le
  have counted := sound.kept_length
  rcases Nat.lt_or_ge width sweep.seen.length with many | few
  · omega
  · have whole : region ⊆ sweep.seen := by
      intro id member
      obtain ⟨seed, listed, path⟩ := leads id ((region_iff id).mp member)
      exact sound.mem_seen_of_leadsTo ended.comparable ended.covered
        ended.stopped few (ended.seeds_seen seed listed) path
    have := (distinct.subperm whole).length_le
    omega

end Ended

end Sweep

namespace Walkable

variable {cloud : Cloud} {links : Links} {query : Coordinates} {level : Nat}
  {seeds : List Hit} {id : PointId}

theorem of_laid (laid : links.Laid)
    (onLevel : ∀ {id neighbors}, links.Reaches level id →
      links.neighbors id level = .ok neighbors →
        ∀ neighbor ∈ neighbors, links.Reaches level neighbor)
    (distance : ∀ {id}, links.Reaches level id →
      ∃ distance, cloud.distanceTo id query = .ok distance) :
    Walkable cloud links query level where
  run {id} reaches := by
    obtain ⟨neighbors, listed⟩ : ∃ neighbors,
        links.neighbors id level = .ok neighbors := by
      simp only [Links.neighbors, laid.run_eq reaches, ok_bind]
      exact ⟨_, rfl⟩
    exact ⟨neighbors, listed, onLevel reaches listed⟩
  distance := distance

/-- A walk does not leave the level. -/
theorem presents_level (walkable : Walkable cloud links query level) :
    (Layer.of cloud links query level).Presents (links.Reaches level)
      (Layer.of cloud links query level).terrain where
  neighbors_eq reaches := by
    obtain ⟨neighbors, listed, _⟩ := walkable.run reaches
    exact listed.trans (congrArg Except.ok (Layer.adjacent_eq listed).symm)
  distance_eq reaches := by
    obtain ⟨distance, measured⟩ := walkable.distance reaches
    exact measured.trans (congrArg Except.ok (Layer.distance_eq measured).symm)
  closed reaches edge := by
    obtain ⟨neighbors, listed, onLevel⟩ := walkable.run reaches
    obtain ⟨_, listed', member⟩ := Layer.mem_adjacent.mp edge
    cases listed.symm.trans listed'
    exact onLevel _ member

section OnLevel

variable (walkable : Walkable cloud links query level)
  (onLevel : ∀ seed ∈ seeds, links.Reaches level seed.id)
include walkable onLevel

theorem reaches (led : links.LeadsFrom level seeds id) :
    links.Reaches level id := by
  obtain ⟨seed, listed, path⟩ := led
  induction path with
  | refl => exact onLevel seed listed
  | tail _ edge inductionHypothesis =>
      exact walkable.presents_level.closed inductionHypothesis
        (Layer.mem_adjacent.mpr edge)

theorem exists_region : ∃ region : List PointId, region.Nodup ∧
    ∀ id, id ∈ region ↔ links.LeadsFrom level seeds id :=
  exists_listing fun _ led => (walkable.reaches onLevel led).lt_size

/-- A walk does not leave the points to which the seeds lead. -/
theorem presents : (Layer.of cloud links query level).Presents
    (links.LeadsFrom level seeds)
    (Layer.of cloud links query level).terrain where
  neighbors_eq led :=
    walkable.presents_level.neighbors_eq (walkable.reaches onLevel led)
  distance_eq led :=
    walkable.presents_level.distance_eq (walkable.reaches onLevel led)
  closed led edge := by
    obtain ⟨seed, listed, path⟩ := led
    exact ⟨seed, listed, path.tail (Layer.mem_adjacent.mp edge)⟩

end OnLevel

section Seeds

variable (walkable : Walkable cloud links query level)
  (seeded : Seeded cloud links query level seeds)
include walkable seeded

theorem search_eq (width : Nat) : ∃ (beam : Beam) (sweep : Sweep),
    (Layer.of cloud links query level).search seeds width = .ok beam ∧
      beam.kept = sweep.kept ∧
      (∀ id, id ∈ beam.seen ↔ id ∈ sweep.seen) ∧
      sweep.Ended (Layer.of cloud links query level).terrain
        (links.LeadsFrom level seeds) width seeds := by
  have presents := walkable.presents seeded.onLevel
  have comparable : (Layer.of cloud links query level).terrain.Comparable
      (links.LeadsFrom level seeds) := presents.comparable
  have seedsInside : ∀ seed ∈ seeds, links.LeadsFrom level seeds seed.id :=
    fun seed listed => ⟨seed, listed, .refl⟩
  have seedsMarked : ∀ seed ∈ seeds,
      (Layer.of cloud links query level).terrain.Marks seed :=
    fun seed listed => congrArg (Hit.mk · seed.id)
      (Layer.distance_eq (seeded seed listed).2).symm
  obtain ⟨beam, searched, tracks, stopped⟩ :=
    Layer.search_eq presents seeds seedsInside width
  refine ⟨beam, _, searched, tracks.kept_eq, fun id => ?_, ?_, comparable,
    ?_, stopped, fun seed listed => ?_⟩
  · rw [← Std.HashSet.contains_iff_mem, tracks.contains_eq,
      decide_eq_true_iff]
  · exact (Sweep.Sound.ofSeeds seedsMarked seedsInside).advance comparable
      presents.closed _
  · exact (Sweep.Covered.ofSeeds seeds).advance _
  · exact (Sweep.before_advance _ _).seen_suffix.subset
      (Sweep.seed_mem_seen width listed)

end Seeds

end Walkable

namespace Sweep.Ended

variable {cloud : Cloud} {links : Links} {query : Coordinates}
  {level width : Nat} {seeds : List Hit} {sweep : Sweep} {hit : Hit}
  {id : PointId}

section Seen

variable (walkable : Walkable cloud links query level)
  (seeded : Seeded cloud links query level seeds)
  (ended : sweep.Ended (Layer.of cloud links query level).terrain
    (links.LeadsFrom level seeds) width seeds)
include walkable seeded ended

theorem measured (seen : id ∈ sweep.seen) : cloud.distanceTo id query =
    .ok ((Layer.of cloud links query level).terrain.distance id) :=
  (walkable.presents seeded.onLevel).distance_eq
    (ended.sound.seen_inside id seen)

/-- The hits of the points seen have the distances of their points. -/
theorem mem_hits_iff :
    hit ∈ (Layer.of cloud links query level).terrain.hits sweep.seen ↔
      hit.id ∈ sweep.seen ∧
        cloud.distanceTo hit.id query = .ok hit.distance := by
  rw [Terrain.mem_hits]
  refine and_congr_right fun seen => ?_
  rw [ended.measured walkable seeded seen, Except.ok.injEq]
  constructor
  · intro marked
    exact congrArg Hit.distance marked.symm
  · intro distance
    exact congrArg (Hit.mk · hit.id) distance.symm

theorem measured_of_kept (kept : hit ∈ sweep.kept) :
    cloud.distanceTo hit.id query = .ok hit.distance :=
  ((ended.mem_hits_iff walkable seeded).mp (ended.sound.kept_seen hit kept)).2

theorem neighbors_seen (kept : hit ∈ sweep.kept) : ∃ neighbors,
    links.neighbors hit.id level = .ok neighbors ∧
      ∀ neighbor ∈ neighbors, neighbor ∈ sweep.seen :=
  ⟨_, (walkable.presents seeded.onLevel).neighbors_eq
    (ended.sound.seen_inside hit.id (ended.seen_of_kept kept)),
    fun _ => ended.closed kept⟩

/-- What has been seen and is not kept is not nearer than any kept hit. -/
theorem distance_le (seen : id ∈ sweep.seen)
    (dropped : id ∉ sweep.kept.map Hit.id) (kept : hit ∈ sweep.kept)
    {distance : Scalar} (measured : cloud.distanceTo id query = .ok distance) :
    hit.distance ≤ distance ∧ ¬ distance < hit.distance := by
  have keptMeasured := ended.measured_of_kept walkable seeded kept
  have order := ended.sound.rank_le id seen
    (mt ended.sound.mem_ids_kept.mpr dropped) hit kept
  have distance_eq : (Layer.of cloud links query level).terrain.distance id =
      distance := Layer.distance_eq measured
  rw [distance_eq] at order
  constructor
  · exact (Cloud.distanceTo_compare keptMeasured measured).2.mpr order
  · rw [(Cloud.distanceTo_compare measured keptMeasured).1]
    exact order.not_gt

end Seen

end Sweep.Ended

end SmallWorld
