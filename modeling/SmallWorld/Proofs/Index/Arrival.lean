import SmallWorld.Proofs.Index.Runs
import SmallWorld.Proofs.Links.Joining

/-!
# The arrival of a new point

What placing a vector does to the runs of an index, run by run.  At each level
that the index has, the new point lists its selection (`grown_size`), the
points selected are offered the new one, and no other run changes
(`grown_other`).  Levels above the top one, and those above the level of the
new point, stay as they are (`grown_of_lt`).
-/

namespace SmallWorld.Index

variable {σ : Type} {index next : Index σ} {runs : Runs} {vector : Coordinates}
  {entryPoint id neighbor : PointId} {own level : Nat}

/-- Where the search of a level starts for a vector that is placed on level
`own`. -/
def approach (index : Index σ) (runs : Runs) (vector : Coordinates)
    (entryPoint : PointId) (own level : Nat) : Hit :=
  let placement := index.placement vector
  let cleared := runs.clear index.size
  let entry : Hit :=
    { distance := placement.distance entryPoint, id := entryPoint }
  placement.startAt cleared level (min own index.topLevel)
    (descendOver (placement.terrain cleared) (placement.size + 1) own
      index.topLevel entry).1

def selection (index : Index σ) (runs : Runs) (vector : Coordinates)
    (entryPoint : PointId) (own level : Nat) : List PointId :=
  (index.placement vector).selected (runs.clear index.size) level
    (index.approach runs vector entryPoint own level)

theorem Gains.reaches_iff [UniformSource σ]
    (gains : index.Gains vector next) (size : index.size = index.links.size) :
    next.links.Reaches level id ↔
      index.links.Reaches level id ∨
        id = index.size ∧
          level ≤ (index.links.table.draw index.source).1 := by
  rw [size, ← Links.reaches_extended_iff]
  simp only [Links.Reaches, Links.extended, gains.levels_eq]

theorem clear_of_reaches (size : index.size = index.links.size)
    (reaches : index.links.Reaches level id) (level' : Nat) :
    runs.clear index.size id level' = runs id level' := by
  apply if_neg
  rw [size]
  exact Nat.ne_of_lt reaches.lt_size

theorem grown_of_none (noEntry : index.entryPoint = none) :
    index.grown runs vector own = runs.clear index.size := by
  simp only [grown, noEntry]

theorem grown_of_some (entry : index.entryPoint = some entryPoint) :
    index.grown runs vector own =
      (index.placement vector).linkLevels (min own index.topLevel)
        (descendOver ((index.placement vector).terrain
          (runs.clear index.size)) ((index.placement vector).size + 1) own
          index.topLevel
          { distance := (index.placement vector).distance entryPoint
            id := entryPoint }).1
        (runs.clear index.size) := by
  simp only [grown, entry]

/-- Above its own level and above the top level a new point changes nothing. -/
theorem grown_of_lt (entry : index.entryPoint = some entryPoint)
    (above : min own index.topLevel < level) (id : PointId) :
    index.grown runs vector own id level =
      runs.clear index.size id level := by
  rw [grown_of_some entry, Placement.linkLevels_of_lt above]

namespace Sound

variable (sound : index.Sound runs)
include sound

theorem not_reaches_size : ¬ index.links.Reaches level index.size := by
  intro reaches
  have inside := reaches.lt_size
  rw [size, sound.size_eq] at inside
  exact Nat.lt_irrefl _ inside

theorem size_notMem (reaches : index.links.Reaches level id) :
    index.size ∉ runs id level :=
  fun member => sound.not_reaches_size (sound.proper.reaches reaches member)

theorem eq_size_of_noEntry [UniformSource σ]
    (gains : index.Gains vector next) (noEntry : index.entryPoint = none)
    (reaches : next.links.Reaches level id) : id = index.size := by
  rcases (gains.reaches_iff sound.size_eq).mp reaches with old | ⟨new, _⟩
  · have inside := old.lt_size
    rw [sound.links_empty noEntry] at inside
    exact absurd inside (Nat.not_lt_zero id)
  · exact new

theorem grown_of_noEntry [UniformSource σ]
    (gains : index.Gains vector next) (noEntry : index.entryPoint = none)
    (reaches : next.links.Reaches level id) :
    index.grown runs vector own id level = [] := by
  rw [grown_of_none noEntry]
  exact if_pos (sound.eq_size_of_noEntry gains noEntry reaches)

theorem runLength_pos (level : Nat) :
    0 < index.links.table.runLength level := by
  have := sound.settings.1
  have := sound.branching_eq
  rw [LevelTable.runLength]
  split <;> omega

variable (acceptable : Acceptable index.cloud.dimension vector)
  (entry : index.entryPoint = some entryPoint)
  (below : level ≤ min own index.topLevel)
include acceptable entry below

/-- The search of a level stays among the old points of that level. -/
theorem approach_startsAmong :
    (index.placement vector).StartsAmong (runs.clear index.size) level
      (index.links.Reaches level)
      (index.approach runs vector entryPoint own level) := by
  have fits := sound.fits acceptable own
  have extended : ∀ {level id}, index.links.Reaches level id →
      (index.links.extended own).Reaches 0 id := fun reaches =>
    Links.reaches_extended_iff.mpr (Or.inl (reaches.of_le (Nat.zero_le _)))
  have lower : ∀ {level level' id}, index.links.Reaches level id →
      level' ≤ level → index.links.Reaches level' id :=
    Links.Reaches.of_le
  have closed : ∀ {level id neighbor}, index.links.Reaches level id →
      neighbor ∈ runs.clear index.size id level →
        index.links.Reaches level neighbor := by
    intro level id neighbor reaches member
    rw [clear_of_reaches sound.size_eq reaches] at member
    exact sound.proper.reaches reaches member
  have distances : ∀ level, ((index.placement vector).terrain
      (runs.clear index.size) level).distance =
        (index.placement vector).distance := fun _ => rfl
  have within : ∀ {level id neighbor}, own < level →
      index.links.Reaches level id →
      neighbor ∈ ((index.placement vector).terrain (runs.clear index.size)
        level).adjacent id → index.links.Reaches level neighbor :=
    fun _ => closed
  obtain ⟨startReaches, startMarked⟩ := descendOver_ends
    index.links.Reaches (index.placement vector).distance lower distances
    within ((index.placement vector).size + 1)
    { distance := (index.placement vector).distance entryPoint
      id := entryPoint } (sound.entry_reaches entry) rfl
  have comparable : ∀ level, ((index.placement vector).terrain
      (runs.clear index.size) level).Comparable (index.links.Reaches level) :=
    fun _ _ _ firstReaches secondReaches =>
      fits.comparable (extended firstReaches) (extended secondReaches)
  exact Placement.startAt_startsAmong lower comparable closed below
    startReaches startMarked

theorem selection_reaches :
    ∀ neighbor ∈ index.selection runs vector entryPoint own level,
      index.links.Reaches level neighbor :=
  (sound.approach_startsAmong acceptable entry below).selected_inside

/-- A new point finds a neighbour at each of its levels that the index has. -/
theorem selection_ne_nil :
    index.selection runs vector entryPoint own level ≠ [] :=
  (sound.approach_startsAmong acceptable entry below).selected_ne_nil
    sound.not_reaches_size sound.settings.2.1
    (Nat.ne_of_gt (sound.runLength_pos level))

/-- The new point lists its selection. -/
theorem grown_size :
    index.grown runs vector own index.size level =
      index.selection runs vector entryPoint own level := by
  rw [grown_of_some entry, Placement.linkLevels_of_le below]
  exact Placement.linkLevel_self
    (sound.approach_startsAmong acceptable entry below)
    sound.not_reaches_size (if_pos rfl)

/-- The points selected are offered the new one, and no other old run
changes. -/
theorem grown_other (reaches : index.links.Reaches level id) :
    index.grown runs vector own id level =
      if id ∈ index.selection runs vector entryPoint own level then
        (index.placement vector).apart.offerTo id index.size
          (index.links.table.runLength level) (level == 0) (runs id level)
      else
        runs id level := by
  have different : id ≠ index.size := fun same =>
    sound.not_reaches_size (same ▸ reaches)
  rw [grown_of_some entry, Placement.linkLevels_of_le below,
    ← show runs.clear index.size id level = runs id level from
      if_neg different]
  exact Placement.linkLevel_other
    (sound.approach_startsAmong acceptable entry below)
    sound.not_reaches_size (if_pos rfl) different

/-- A new point adds no link between two old ones. -/
theorem mem_of_mem_grown (reaches : index.links.Reaches level id)
    (member : neighbor ∈ index.grown runs vector own id level) :
    neighbor ∈ runs id level ∨
      neighbor = index.size ∧
        id ∈ index.selection runs vector entryPoint own level := by
  rw [sound.grown_other acceptable entry below reaches] at member
  split at member
  · next selected =>
      exact (Distances.mem_of_mem_offerTo member).imp_right
        fun new => ⟨new.1, selected⟩
  · exact Or.inl member

end Sound

section Zero

variable (sound : index.Sound runs)
  (acceptable : Acceptable index.cloud.dimension vector)
  (entry : index.entryPoint = some entryPoint)
include sound acceptable entry

/-- On level 0 an old run stays as it is, or grows by the new point, or is
full and stays full. -/
theorem Sound.grown_zero (own : Nat) (reaches : index.links.Reaches 0 id) :
    id ∉ index.selection runs vector entryPoint own 0 ∧
        index.grown runs vector own id 0 = runs id 0 ∨
      id ∈ index.selection runs vector entryPoint own 0 ∧
        index.grown runs vector own id 0 = runs id 0 ++ [index.size] ∨
      (runs id 0).length = index.links.table.runLength 0 ∧
        (index.grown runs vector own id 0).length =
          index.links.table.runLength 0 := by
  rw [sound.grown_other acceptable entry (Nat.zero_le _) reaches]
  split
  · next selected =>
      right
      have different : id ≠ index.size := fun same =>
        sound.not_reaches_size (same ▸ reaches)
      exact (Distances.offerTo_eq_append_or_full different
        (sound.size_notMem reaches)
        (fun member => sound.proper.ne reaches member rfl)
        (sound.represents.length_le reaches)).imp_left
          fun appended => ⟨selected, appended⟩
  · next notSelected => exact Or.inl ⟨notSelected, rfl⟩

theorem Sound.length_le_grown (own : Nat)
    (reaches : index.links.Reaches 0 id) :
    (runs id 0).length ≤ (index.grown runs vector own id 0).length := by
  rcases sound.grown_zero acceptable entry own reaches with
    ⟨_, same⟩ | ⟨_, appended⟩ | ⟨before, after⟩
  · rw [same]
  · rw [appended, List.length_append]
    exact Nat.le_add_right _ _
  · rw [before, after]

/-- On level 0 only a full run drops a neighbour. -/
theorem Sound.mem_grown_or_full (own : Nat)
    (reaches : index.links.Reaches 0 id) (member : neighbor ∈ runs id 0) :
    neighbor ∈ index.grown runs vector own id 0 ∨
      (index.grown runs vector own id 0).length =
        index.links.table.runLength 0 := by
  rcases sound.grown_zero acceptable entry own reaches with
    ⟨_, same⟩ | ⟨_, appended⟩ | ⟨_, full⟩
  · exact Or.inl (same ▸ member)
  · exact Or.inl (appended ▸ List.mem_append_left _ member)
  · exact Or.inr full

/-- On level 0 only a full run does not list a new point that lists it. -/
theorem Sound.size_mem_grown_or_full {own : Nat}
    (selected : id ∈ index.selection runs vector entryPoint own 0) :
    index.size ∈ index.grown runs vector own id 0 ∨
      (index.grown runs vector own id 0).length =
        index.links.table.runLength 0 := by
  have reaches := sound.selection_reaches acceptable entry (Nat.zero_le _) id
    selected
  rcases sound.grown_zero acceptable entry own reaches with
    ⟨notSelected, _⟩ | ⟨_, appended⟩ | ⟨_, full⟩
  · exact absurd selected notSelected
  · exact Or.inl (appended ▸ List.mem_concat_self)
  · exact Or.inr full

end Zero

end SmallWorld.Index
