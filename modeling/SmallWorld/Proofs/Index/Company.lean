import SmallWorld.Proofs.Index.Edges

/-!
# Points in company

The first point of a level has no neighbours there.  The second one selects
some, which is the first one, and after that no run of the level is ever
empty: a run that is offered something keeps some neighbour, whatever it
drops.  On level 0 a run never gets shorter.
-/

namespace SmallWorld.Index

variable {σ : Type} {index next : Index σ} {runs : Runs} {level own : Nat}
  {id entryPoint first second : PointId} {vector : Coordinates}

/-- A point with another one on a level has a neighbour there. -/
def Accompanied (index : Index σ) (runs : Runs) : Prop :=
  ∀ {level : Nat} {first second : PointId},
    index.links.Reaches level first → index.links.Reaches level second →
    first ≠ second → runs first level ≠ []

/-- An old run is empty after an arrival only if it was before and the new
point did not select its owner. -/
theorem Sound.grown_ne_nil (sound : index.Sound runs)
    (acceptable : Acceptable index.cloud.dimension vector)
    (entry : index.entryPoint = some entryPoint)
    (below : level ≤ min own index.topLevel)
    (reaches : index.links.Reaches level id)
    (busy : id ∉ index.selection runs vector entryPoint own level →
      runs id level ≠ []) :
    index.grown runs vector own id level ≠ [] := by
  rw [sound.grown_other acceptable entry below reaches]
  split
  · have different : id ≠ index.size := fun same =>
      sound.not_reaches_size (same ▸ reaches)
    exact Distances.offerTo_ne_nil different (sound.size_notMem reaches)
      (fun member => sound.proper.ne reaches member rfl)
      (Nat.ne_of_gt (sound.runLength_pos level))
  · next notSelected => exact busy notSelected

section Arrival

variable [UniformSource σ] (accompanied : index.Accompanied runs)
  (sound : index.Sound runs)
  (entry : index.entryPoint = some entryPoint)
  (gains : index.Gains vector next)
  (firstReaches : next.links.Reaches level first)
  (secondReaches : next.links.Reaches level second)
  (different : first ≠ second)
include accompanied sound entry gains firstReaches secondReaches different

/-- Where the new point is linked, it and the points it joins have company. -/
theorem Accompanied.grown_of_le
    (acceptable : Acceptable index.cloud.dimension vector)
    (below : level ≤ min own index.topLevel) :
    index.grown runs vector own first level ≠ [] := by
  rcases (gains.reaches_iff sound.size_eq).mp firstReaches with
    old | ⟨rfl, _⟩
  · apply sound.grown_ne_nil acceptable entry below old
    intro notSelected
    rcases (gains.reaches_iff sound.size_eq).mp secondReaches with
      secondOld | ⟨_, _⟩
    · exact accompanied old secondOld different
    · obtain ⟨other, selected⟩ := List.exists_mem_of_ne_nil _
        (sound.selection_ne_nil acceptable entry below)
      exact accompanied old
        (sound.selection_reaches acceptable entry below other selected)
        fun same => notSelected (same ▸ selected)
  · rw [sound.grown_size acceptable entry below]
    exact sound.selection_ne_nil acceptable entry below

/-- Where the new point is not linked, it is either absent or alone. -/
theorem Accompanied.grown_of_gt
    (above : min (index.links.table.draw index.source).1 index.topLevel <
      level) :
    index.grown runs vector (index.links.table.draw index.source).1 first
      level ≠ [] := by
  have apart : ∀ {id}, index.links.Reaches level id →
      ¬ level ≤ (index.links.table.draw index.source).1 :=
    fun old drawn => Nat.not_le.mpr above
      (le_min drawn (sound.le_topLevel entry old))
  rw [grown_of_lt entry above]
  rcases (gains.reaches_iff sound.size_eq).mp firstReaches with
      old | ⟨firstNew, drawn⟩ <;>
    rcases (gains.reaches_iff sound.size_eq).mp secondReaches with
      secondOld | ⟨secondNew, drawn'⟩
  · rw [clear_of_reaches sound.size_eq old]
    exact accompanied old secondOld different
  · exact absurd drawn' (apart old)
  · exact absurd drawn (apart secondOld)
  · exact absurd (firstNew.trans secondNew.symm) different

end Arrival

theorem preserved_accompanied [UniformSource σ] :
    PreservedByPlacing (Accompanied : Index σ → Runs → Prop) := by
  intro index runs vector next sound accompanied acceptable _ gains _ level
    first second firstReaches secondReaches different
  cases entry : index.entryPoint with
  | none =>
      have firstNew := sound.eq_size_of_noEntry gains entry firstReaches
      have secondNew := sound.eq_size_of_noEntry gains entry secondReaches
      exact absurd (firstNew.trans secondNew.symm) different
  | some entryPoint =>
      rcases Nat.lt_or_ge (min (index.links.table.draw index.source).1
        index.topLevel) level with above | below
      · exact accompanied.grown_of_gt sound entry gains firstReaches
          secondReaches different above
      · exact accompanied.grown_of_le sound entry gains firstReaches
          secondReaches different acceptable below

/-- No run of level 0 has become shorter since an earlier index. -/
def Outgrows (earlier : Index σ) (earlierRuns : Runs) (later : Index σ)
    (runs : Runs) : Prop :=
  earlier.size ≤ later.size ∧
    ∀ id < earlier.size, (earlierRuns id 0).length ≤ (runs id 0).length

theorem preserved_outgrows [UniformSource σ] (earlier : Index σ)
    (earlierRuns : Runs) :
    PreservedByPlacing (earlier.Outgrows earlierRuns) := by
  intro index runs vector next sound ⟨size, longer⟩ acceptable _ gains _
  refine ⟨size.trans (gains.size_eq ▸ Nat.le_succ _), fun id inside => ?_⟩
  have old : id < index.size := inside.trans_le size
  obtain ⟨entryPoint, entry⟩ :=
    sound.exists_entry ((Nat.zero_le id).trans_lt old)
  exact (longer id inside).trans (sound.length_le_grown acceptable entry _
    (sound.reaches_zero.mpr old))

/-- Where two points reach a level, neither is without a neighbour there, and
no call takes neighbours on level 0 from a point without giving it as many. -/
theorem Reachable.not_stranded [UniformSource σ]
    (reachable : index.Reachable) :
    (∀ {level : Nat} {first second : PointId},
        index.links.Reaches level first → index.links.Reaches level second →
        first ≠ second →
        ∃ neighbors, index.neighbors? first level = .ok (some neighbors) ∧
          neighbors ≠ []) ∧
      ∀ {call : Call} {next : Index σ}, index.apply call = .ok next →
        ∀ id < index.size, ∃ before after,
          index.neighbors? id 0 = .ok (some before) ∧
          next.neighbors? id 0 = .ok (some after) ∧
          before.length ≤ after.length := by
  obtain ⟨runs, sound, accompanied⟩ := reachable.induction
    preserved_accompanied fun isFresh _ _ _ reaches =>
      (isFresh.not_reaches reaches).elim
  constructor
  · intro level first second firstReaches secondReaches different
    exact ⟨_, sound.neighbors?_eq firstReaches,
      accompanied firstReaches secondReaches different⟩
  · intro call next applied id inside
    obtain ⟨_, runs', sound', size, longer⟩ :=
      (apply_eq (preserved_outgrows index runs) sound
        ⟨Nat.le_refl _, fun _ _ => Nat.le_refl _⟩ call).1 next applied
    exact ⟨_, _, sound.neighbors?_eq (sound.reaches_zero.mpr inside),
      sound'.neighbors?_eq (sound'.reaches_zero.mpr (inside.trans_le size)),
      longer id inside⟩

theorem line_not_stranded : ∃ line next : Index (Cycle Float),
    line.Reachable ∧ line.links.Reaches 1 0 ∧ line.links.Reaches 1 1 ∧
    line.apply (.insert [Scalar.one]) = .ok next ∧
    (∃ neighbors, line.neighbors? 0 1 = .ok (some neighbors) ∧
      neighbors ≠ []) ∧
    ∀ id < line.size, ∃ before after,
      line.neighbors? id 0 = .ok (some before) ∧
      next.neighbors? id 0 = .ok (some after) ∧
      before.length ≤ after.length := by
  obtain ⟨line, isLine⟩ := exists_isLine
  obtain ⟨next, _, applied, _⟩ :=
    isLine.sound.apply_eq isLine.count_pos (.insert [Scalar.one])
  have reaches : line.links.Reaches 1 0 ∧ line.links.Reaches 1 1 := by
    rw [Links.Reaches, Links.Reaches, isLine.levels_eq]
    exact ⟨⟨1, rfl, Nat.le_refl 1⟩, ⟨1, rfl, Nat.le_refl 1⟩⟩
  obtain ⟨accompanied, longer⟩ := isLine.reachable.not_stranded
  exact ⟨line, next, isLine.reachable, reaches.1, reaches.2, applied,
    accompanied reaches.1 reaches.2 (by decide), longer applied⟩

end SmallWorld.Index
