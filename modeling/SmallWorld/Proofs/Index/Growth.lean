import SmallWorld.Index.Run
import SmallWorld.Proofs.Cloud
import SmallWorld.Proofs.LevelTable
import SmallWorld.Proofs.Links.Placement

/-!
# Growth of an index

An index is *sound* with some runs when its vectors are accepted ones, its
slots represent the runs, the runs are proper, and its entry point is on the
top level.  Placing a vector in a sound index succeeds and ends at a sound
index (`Sound.place`), whose runs are a function of the earlier ones
(`grown`).
-/

namespace SmallWorld

namespace Index

variable {σ : Type}

/-- The entry point is on the top level, and no point is above it; there is
none exactly when there are no points. -/
def EntryOnTop (index : Index σ) : Prop :=
  match index.entryPoint with
  | none => index.links.size = 0
  | some entryPoint =>
      index.links.levels[entryPoint]? = some index.topLevel ∧
        ∀ own ∈ index.links.levels, own ≤ index.topLevel

/-- All parts of the index fit each other, and its slots hold the given
runs. -/
structure Sound (index : Index σ) (runs : Runs) : Prop where
  cloud : index.cloud.IsSound
  settings : index.settings.Valid
  branching_eq : index.links.table.branching = index.settings.branching
  size_eq : index.cloud.size = index.links.size
  represents : index.links.Represents runs
  proper : runs.Proper index.links.Reaches
  entryOnTop : index.EntryOnTop

def placement (index : Index σ) (vector : Coordinates) : Placement where
  id := index.size
  apart :=
    { index.cloud with vectors := index.cloud.vectors.push vector }.apart
  size := index.size + 1
  width := index.settings.constructionWidth
  capacity := index.links.table.runLength

/-- The runs after a vector has been placed on a level. -/
def grown (index : Index σ) (runs : Runs) (vector : Coordinates)
    (level : Nat) : Runs :=
  let placement := index.placement vector
  let cleared := runs.clear index.size
  match index.entryPoint with
  | none => cleared
  | some entryPoint =>
      let entry : Hit :=
        { distance := placement.distance entryPoint, id := entryPoint }
      let start := (descendOver (placement.terrain cleared)
        (placement.size + 1) level index.topLevel entry).1
      placement.linkLevels (min level index.topLevel) start cleared

/-- The next index is this one with one more vector. -/
structure Gains [UniformSource σ] (index : Index σ) (vector : Coordinates)
    (next : Index σ) : Prop where
  settings_eq : next.settings = index.settings
  cloud_eq : next.cloud =
    { index.cloud with vectors := index.cloud.vectors.push vector }
  table_eq : next.links.table = index.links.table
  levels_eq : next.links.levels = index.links.levels.push
    (index.links.table.draw index.source).1
  source_eq : next.source = (index.links.table.draw index.source).2
  entryPoint_eq : next.entryPoint =
    if index.entryPoint = none ∨
        index.topLevel < (index.links.table.draw index.source).1 then
      some index.size
    else
      index.entryPoint
  topLevel_eq : next.topLevel =
    if index.entryPoint = none then
      (index.links.table.draw index.source).1
    else
      max index.topLevel (index.links.table.draw index.source).1

theorem Gains.size_eq [UniformSource σ] {index next : Index σ}
    {vector : Coordinates} (gains : index.Gains vector next) :
    next.size = index.size + 1 := by
  rw [size, gains.cloud_eq]
  exact Array.size_push vector

theorem IsFresh.not_reaches {index : Index σ} (fresh : index.IsFresh)
    {level : Nat} {id : PointId} : ¬ index.links.Reaches level id := by
  intro reaches
  have inside := reaches.lt_size
  rw [fresh.links_eq] at inside
  exact Nat.not_lt_zero _ inside

theorem IsFresh.sound {index : Index σ} (fresh : index.IsFresh)
    (runs : Runs) : index.Sound runs where
  cloud :=
    { dimension_pos := fresh.dimension_pos
      machine := fresh.machine
      acceptable := by simp [fresh.cloud_eq] }
  settings := fresh.valid
  branching_eq := fresh.branching_eq
  size_eq := by
    rw [Cloud.size, fresh.cloud_eq, fresh.links_eq]
    rfl
  represents := by
    rw [fresh.links_eq]
    exact Links.empty_represents _ runs
  proper :=
    ⟨fun reaches => (fresh.not_reaches reaches).elim,
      fun reaches _ => (fresh.not_reaches reaches).elim,
      fun reaches _ => (fresh.not_reaches reaches).elim⟩
  entryOnTop := by
    unfold EntryOnTop
    rw [fresh.entryPoint_eq, fresh.links_eq]
    rfl

section Place

variable {index : Index σ} {runs : Runs} {vector : Coordinates}
  {entryPoint id : PointId} {level : Nat}

theorem Sound.neighborBound_eq (sound : index.Sound runs) (level : Nat) :
    index.settings.neighborBound level =
      index.links.table.runLength level := by
  rw [Settings.neighborBound, LevelTable.runLength, sound.branching_eq]

theorem Sound.entry_onTop (sound : index.Sound runs)
    (entry : index.entryPoint = some entryPoint) :
    index.links.levels[entryPoint]? = some index.topLevel ∧
      ∀ own ∈ index.links.levels, own ≤ index.topLevel := by
  have onTop := sound.entryOnTop
  unfold EntryOnTop at onTop
  rwa [entry] at onTop

theorem Sound.links_empty (sound : index.Sound runs)
    (noEntry : index.entryPoint = none) : index.links.size = 0 := by
  have onTop := sound.entryOnTop
  unfold EntryOnTop at onTop
  rwa [noEntry] at onTop

theorem Sound.entry_reaches (sound : index.Sound runs)
    (entry : index.entryPoint = some entryPoint) :
    index.links.Reaches index.topLevel entryPoint :=
  ⟨index.topLevel, (sound.entry_onTop entry).1, Nat.le_refl _⟩

theorem Sound.lt_size (sound : index.Sound runs)
    (reaches : index.links.Reaches level id) : id < index.cloud.size := by
  rw [sound.size_eq]
  exact reaches.lt_size

theorem Sound.reaches_zero (sound : index.Sound runs) :
    index.links.Reaches 0 id ↔ id < index.size := by
  rw [Links.reaches_zero_iff, size, sound.size_eq]

theorem Sound.exists_entry (sound : index.Sound runs)
    (nonempty : 0 < index.size) :
    ∃ entryPoint, index.entryPoint = some entryPoint := by
  cases entry : index.entryPoint with
  | some entryPoint => exact ⟨entryPoint, rfl⟩
  | none =>
      rw [size, sound.size_eq, sound.links_empty entry] at nonempty
      exact absurd nonempty (Nat.lt_irrefl 0)

theorem Sound.le_topLevel (sound : index.Sound runs)
    (entry : index.entryPoint = some entryPoint)
    (reaches : index.links.Reaches level id) : level ≤ index.topLevel := by
  obtain ⟨own, found, below⟩ := reaches
  exact below.trans
    ((sound.entry_onTop entry).2 own (Array.mem_of_getElem? found))

theorem Sound.fits (sound : index.Sound runs)
    (acceptable : Acceptable index.cloud.dimension vector) (level : Nat) :
    (index.placement vector).Fits (index.links.extended level)
      { index.cloud with vectors := index.cloud.vectors.push vector }
      vector := by
  have cloud := sound.cloud.push acceptable
  have size : ({ index.cloud with
      vectors := index.cloud.vectors.push vector } : Cloud).size =
        index.cloud.size + 1 := Array.size_push vector
  have inside : ∀ {id}, (index.links.extended level).Reaches 0 id →
      id < ({ index.cloud with
        vectors := index.cloud.vectors.push vector } : Cloud).size := by
    intro id reaches
    have := reaches.lt_size
    rw [Links.size_extended, ← sound.size_eq] at this
    rwa [size]
  have distance : ∀ id, (index.placement vector).distance id =
      ({ index.cloud with
        vectors := index.cloud.vectors.push vector } : Cloud).reach
          vector id :=
    fun id => Cloud.apart_push_size index.cloud vector id
  refine ⟨size, rfl, ?_, ?_, ?_⟩
  · intro first second firstReaches secondReaches
    exact cloud.distanceBetween_eq (inside firstReaches)
      (inside secondReaches)
  · intro id reaches
    rw [distance]
    exact cloud.distanceTo_eq acceptable (inside reaches)
  · intro first second firstReaches secondReaches
    rw [distance, distance]
    exact cloud.reach_lt_iff acceptable (inside firstReaches)
      (inside secondReaches)

theorem Sound.proper_clear (sound : index.Sound runs) (level : Nat) :
    (runs.clear index.size).Proper
      (index.links.extended level).Reaches := by
  have cases : ∀ {level' id}, (index.links.extended level).Reaches level' id →
      (index.links.Reaches level' id ∧
          runs.clear index.size id level' = runs id level') ∨
        runs.clear index.size id level' = [] := by
    intro level' id reaches
    by_cases new : id = index.size
    · exact Or.inr (if_pos new)
    · refine Or.inl ⟨?_, if_neg new⟩
      refine (Links.reaches_extended_iff.mp reaches).resolve_right ?_
      rintro ⟨same, _⟩
      exact new (same.trans sound.size_eq.symm)
  refine ⟨?_, ?_, ?_⟩
  · intro id level' reaches
    rcases cases reaches with ⟨old, same⟩ | new
    · rw [same]
      exact sound.proper.nodup old
    · rw [new]
      exact List.nodup_nil
  · intro id level' neighbor reaches member
    rcases cases reaches with ⟨old, same⟩ | new
    · rw [same] at member
      exact sound.proper.ne old member
    · rw [new] at member
      cases member
  · intro id level' neighbor reaches member
    rcases cases reaches with ⟨old, same⟩ | new
    · rw [same] at member
      exact Links.reaches_extended_iff.mpr
        (Or.inl (sound.proper.reaches old member))
    · rw [new] at member
      cases member

theorem Sound.represents_clear (sound : index.Sound runs)
    (room : index.size < greatestSize)
    (drawn : level < index.links.table.count) :
    (index.links.extended level).Represents (runs.clear index.size) := by
  have same : index.size = index.links.size := sound.size_eq
  rw [same] at room ⊢
  exact sound.represents.extended room drawn

theorem Sound.getElem?_push_size (sound : index.Sound runs) (level : Nat) :
    (index.links.levels.push level)[index.size]? = some level := by
  rw [show index.size = index.links.size from sound.size_eq]
  exact Array.getElem?_push_size

/-- The parts of an index still fit each other with one more vector and one
more block, if the links hold the runs and the entry point is on top. -/
private theorem Sound.pushed (sound : index.Sound runs)
    (acceptable : Acceptable index.cloud.dimension vector) {slots : Array PointId}
    {source : σ} {topLevel : Nat} {runs' : Runs}
    (represents :
      { index.links.extended level with slots }.Represents runs')
    (proper : runs'.Proper (index.links.extended level).Reaches)
    (onTop : (index.links.levels.push level)[entryPoint]? = some topLevel)
    (topmost : ∀ own ∈ index.links.levels, own ≤ topLevel)
    (atLeast : level ≤ topLevel) :
    ({ index with
      cloud := { index.cloud with vectors := index.cloud.vectors.push vector }
      links := { index.links.extended level with slots }
      source
      entryPoint := some entryPoint
      topLevel } : Index σ).Sound runs' where
  cloud := sound.cloud.push acceptable
  settings := sound.settings
  branching_eq := sound.branching_eq
  size_eq := (Array.size_push vector).trans
    ((congrArg (· + 1) sound.size_eq).trans Links.size_extended.symm)
  represents := represents
  proper := proper
  entryOnTop := by
    refine ⟨onTop, fun own member => ?_⟩
    rcases Array.mem_push.mp member with old | same
    · exact topmost own old
    · exact same.trans_le atLeast

/-- The new vector and the new block have the same number. -/
theorem push_eq (room : index.size < greatestSize) :
    index.cloud.push vector = .ok (index.size,
      { index.cloud with vectors := index.cloud.vectors.push vector }) := by
  simp only [Cloud.push, pointId, show ¬ greatestSize ≤ index.cloud.size
    from Nat.not_le.mpr room, if_false]
  rfl

theorem Sound.extended_reaches_size (sound : index.Sound runs) (level : Nat) :
    (index.links.extended level).Reaches (min level index.topLevel)
      index.size :=
  Links.reaches_extended_iff.mpr
    (Or.inr ⟨sound.size_eq, Nat.min_le_left _ _⟩)

section Later

variable (sound : index.Sound runs)
  (acceptable : Acceptable index.cloud.dimension vector)
  (room : index.size < greatestSize)
  (drawn : level < index.links.table.count)
  (entry : index.entryPoint = some entryPoint)
include sound acceptable room drawn entry

/-- The descent for a later point ends where its links begin. -/
theorem Sound.descend_extended :
    ∃ start work,
      descend (Layer.of { index.cloud with
          vectors := index.cloud.vectors.push vector }
        (index.links.extended level) vector) level index.topLevel
        { distance := (index.placement vector).distance entryPoint
          id := entryPoint } = .ok (start, work) ∧
      (index.links.extended level).Reaches (min level index.topLevel)
        start.id ∧
      start.distance = (index.placement vector).distance start.id ∧
      index.grown runs vector level =
        (index.placement vector).linkLevels (min level index.topLevel) start
          (runs.clear index.size) := by
  have fits := sound.fits acceptable level
  have presents := (sound.represents_clear room drawn).presents
    { index.cloud with vectors := index.cloud.vectors.push vector } vector
    (sound.proper_clear level) fits.distanceTo_eq
  obtain ⟨descended, startReaches, startMarked⟩ := descend_eq
    (index.links.extended level).Reaches (index.placement vector).distance
    (fun reaches below => Links.Reaches.of_le reaches below) (fun _ => rfl)
    (Layer.of { index.cloud with vectors := index.cloud.vectors.push vector }
      (index.links.extended level) vector)
    (fun level' (_ : level < level') => presents level')
    (fun _ => Nat.lt_succ_of_le fits.size_eq.le)
    { distance := (index.placement vector).distance entryPoint
      id := entryPoint }
    (Links.reaches_extended_iff.mpr (Or.inl (sound.entry_reaches entry))) rfl
  simp only [grown, entry]
  exact ⟨_, _, descended, startReaches, startMarked, rfl⟩

/-- A later point is linked from the end of a descent on. -/
private theorem Sound.link_later :
    ∃ start work slots,
      descend (Layer.of { index.cloud with
          vectors := index.cloud.vectors.push vector }
        (index.links.extended level) vector) level index.topLevel
        { distance := (index.placement vector).distance entryPoint
          id := entryPoint } = .ok (start, work) ∧
      (Links.connectLevels { index.cloud with
          vectors := index.cloud.vectors.push vector }
        index.settings.constructionWidth index.size vector
        (min level index.topLevel) start
        (index.links.extended level)).outcome =
          .ok { index.links.extended level with slots } ∧
      { index.links.extended level with slots }.Represents
        (index.grown runs vector level) ∧
      (index.grown runs vector level).Proper
        (index.links.extended level).Reaches := by
  obtain ⟨start, work, descended, startReaches, startMarked, grown⟩ :=
    sound.descend_extended acceptable room drawn entry
  obtain ⟨slots, connected, represents, proper⟩ :=
    Links.Represents.connectLevels_eq (sound.fits acceptable level)
      (sound.extended_reaches_size level) (index.links.extended level).slots
      (sound.represents_clear room drawn) (sound.proper_clear level)
      startReaches startMarked
  rw [grown]
  exact ⟨start, work, slots, descended, connected, represents, proper⟩

end Later

variable [UniformSource σ]

private theorem Sound.place_first (sound : index.Sound runs)
    (acceptable : Acceptable index.cloud.dimension vector)
    (room : index.size < greatestSize)
    (listed : 0 < index.links.table.count)
    (noEntry : index.entryPoint = none) :
    ∃ next, (index.place vector).outcome = .ok (index.size, next) ∧
      index.Gains vector next ∧
      next.Sound (index.grown runs vector
        (index.links.table.draw index.source).1) := by
  have drawn := LevelTable.draw_lt_count listed index.source
  cases draw : index.links.table.draw index.source with
  | mk level source =>
      rw [draw] at drawn
      have allocated := Links.allocate_eq
        (show index.links.size < greatestSize from sound.size_eq ▸ room) drawn
      refine ⟨{ index with
        cloud :=
          { index.cloud with vectors := index.cloud.vectors.push vector }
        links := index.links.extended level
        source
        entryPoint := some index.size
        topLevel := level }, ?_, ?_, ?_⟩
      · simp only [place, Traced.outcome_bind, push_eq room,
          Traced.outcome_lift_refusal_ok, ok_bind, draw, allocated,
          Traced.outcome_lift_failure, Traced.outcome_record, noEntry,
          Traced.outcome_pure]
      · constructor <;> simp [Links.extended, draw, noEntry]
      · simp only [grown, noEntry]
        refine sound.pushed acceptable (sound.represents_clear room drawn)
          (sound.proper_clear level) (sound.getElem?_push_size level) ?_
          (Nat.le_refl level)
        intro own member
        rw [Array.size_eq_zero_iff.mp (sound.links_empty noEntry)] at member
        exact absurd member (Array.not_mem_empty own)

private theorem Sound.place_later (sound : index.Sound runs)
    (acceptable : Acceptable index.cloud.dimension vector)
    (room : index.size < greatestSize)
    (listed : 0 < index.links.table.count)
    (entry : index.entryPoint = some entryPoint) :
    ∃ next, (index.place vector).outcome = .ok (index.size, next) ∧
      index.Gains vector next ∧
      next.Sound (index.grown runs vector
        (index.links.table.draw index.source).1) := by
  have drawn := LevelTable.draw_lt_count listed index.source
  cases draw : index.links.table.draw index.source with
  | mk level source =>
      rw [draw] at drawn
      have allocated := Links.allocate_eq
        (show index.links.size < greatestSize from sound.size_eq ▸ room) drawn
      obtain ⟨start, work, slots, descended, connected, represents, proper⟩ :=
        sound.link_later acceptable room drawn entry
      obtain ⟨entryLevel, topmost⟩ := sound.entry_onTop entry
      have measured := (sound.fits acceptable level).distanceTo_eq
        (Links.reaches_extended_iff.mpr
          (Or.inl ((sound.entry_reaches entry).of_le (Nat.zero_le _))))
      have placed : (index.place vector).outcome = .ok (index.size,
          { index with
            cloud :=
              { index.cloud with
                vectors := index.cloud.vectors.push vector }
            links := { index.links.extended level with slots }
            source
            entryPoint := some
              (if index.topLevel < level then index.size else entryPoint)
            topLevel :=
              if index.topLevel < level then level else index.topLevel }) := by
        simp only [Index.place, Traced.outcome_bind, push_eq room,
          Traced.outcome_lift_refusal_ok, ok_bind, draw, allocated,
          Traced.outcome_lift_failure, Traced.outcome_record, entry,
          measured, Traced.outcome_lift_fault_ok, descended, connected]
        split <;> rfl
      refine ⟨_, placed, ?_, ?_⟩
      · constructor <;> simp only [Links.extended, draw, entry]
        · by_cases higher : index.topLevel < level <;> simp [higher]
        · by_cases higher : index.topLevel < level <;>
            simp [higher, Nat.le_of_lt, Nat.le_of_not_lt]
      · by_cases higher : index.topLevel < level
        · simp only [if_pos higher]
          exact sound.pushed acceptable represents proper
            (sound.getElem?_push_size level)
            (fun own member => (topmost own member).trans higher.le)
            (Nat.le_refl level)
        · simp only [if_neg higher]
          refine sound.pushed acceptable represents proper ?_ topmost
            (Nat.not_lt.mp higher)
          obtain ⟨inside, _⟩ := Array.getElem?_eq_some_iff.mp entryLevel
          rw [Array.getElem?_push_lt inside, ← entryLevel]
          exact (Array.getElem?_eq_getElem inside).symm

/-- Placing an accepted vector in a sound index succeeds, and ends at a sound
index with one more point. -/
theorem Sound.place (sound : index.Sound runs)
    (acceptable : Acceptable index.cloud.dimension vector)
    (room : index.size < greatestSize)
    (listed : 0 < index.links.table.count) :
    ∃ next, (index.place vector).outcome = .ok (index.size, next) ∧
      index.Gains vector next ∧
      next.Sound (index.grown runs vector
        (index.links.table.draw index.source).1) := by
  cases entry : index.entryPoint with
  | none => exact sound.place_first acceptable room listed entry
  | some entryPoint => exact sound.place_later acceptable room listed entry

end Place

end Index

end SmallWorld
