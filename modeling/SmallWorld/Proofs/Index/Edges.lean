import SmallWorld.Proofs.Index.Arrival
import SmallWorld.Proofs.Index.Outline

/-!
# Edges that one side lists

A new point and the points it selects are offered to each other, and a run of
level 0 drops a neighbour only when it is full, after which it stays full.  So
a neighbour on level 0 that does not list a point back has a full run.
-/

namespace SmallWorld.Index

variable {σ : Type} {index : Index σ} {runs : Runs} {level : Nat}
  {id neighbor first second : PointId}

def Lists (index : Index σ) (level : Nat) (id neighbor : PointId) : Prop :=
  ∃ neighbors, index.neighbors? id level = .ok (some neighbors) ∧
    neighbor ∈ neighbors

theorem Sound.neighbors?_eq (sound : index.Sound runs)
    (reaches : index.links.Reaches level id) :
    index.neighbors? id level = .ok (some (runs id level)) := by
  have ⟨own, found, below⟩ := reaches
  rw [neighbors?, levelOf?, found]
  simp only [if_pos below, sound.represents.neighbors_eq reaches, ok_bind]
  rfl

theorem reaches_of_neighbors? {neighbors : List PointId}
    (listed : index.neighbors? id level = .ok (some neighbors)) :
    index.links.Reaches level id := by
  rw [neighbors?] at listed
  split at listed
  · cases listed
  · next own found =>
      by_cases below : level ≤ own
      · exact ⟨own, found, below⟩
      · rw [if_neg below] at listed
        cases listed

theorem lists_iff_of_neighbors? {neighbors : List PointId}
    (listed : index.neighbors? id level = .ok (some neighbors)) :
    index.Lists level id neighbor ↔ neighbor ∈ neighbors := by
  refine ⟨?_, fun member => ⟨neighbors, listed, member⟩⟩
  rintro ⟨others, listed', member⟩
  cases listed.symm.trans listed'
  exact member

theorem Sound.lists_iff (sound : index.Sound runs) :
    index.Lists level id neighbor ↔
      index.links.Reaches level id ∧ neighbor ∈ runs id level := by
  constructor
  · rintro ⟨neighbors, listed, member⟩
    have reaches := reaches_of_neighbors? listed
    exact ⟨reaches, (lists_iff_of_neighbors?
      (sound.neighbors?_eq reaches)).mp ⟨neighbors, listed, member⟩⟩
  · rintro ⟨reaches, member⟩
    exact ⟨_, sound.neighbors?_eq reaches, member⟩

/-- Neighbours on level 0 that do not list a point back have full runs. -/
def Saturated (index : Index σ) (runs : Runs) : Prop :=
  ∀ {first second : PointId}, index.links.Reaches 0 first →
    second ∈ runs first 0 → first ∉ runs second 0 →
    (runs second 0).length = index.links.table.runLength 0

theorem preserved_saturated [UniformSource σ] :
    PreservedByPlacing (Saturated : Index σ → Runs → Prop) := by
  intro index runs vector next sound saturated acceptable _ gains sound' first
    second reaches listed unlisted
  have fits :=
    sound'.represents.length_le (sound'.proper.reaches reaches listed)
  rw [gains.table_eq] at fits ⊢
  cases entry : index.entryPoint with
  | none =>
      rw [sound.grown_of_noEntry gains entry reaches] at listed
      cases listed
  | some entryPoint =>
      rcases (gains.reaches_iff sound.size_eq).mp reaches with
        old | ⟨rfl, _⟩
      · rcases sound.mem_of_mem_grown acceptable entry (Nat.zero_le _) old
          listed with before | ⟨rfl, selected⟩
        · -- The link is an old one, and one of the runs may have dropped it.
          have secondOld := sound.proper.reaches old before
          by_cases back : first ∈ runs second 0
          · exact (sound.mem_grown_or_full acceptable entry _ secondOld
              back).resolve_left unlisted
          · have full := saturated old before back
            have grown := sound.length_le_grown acceptable entry
              (index.links.table.draw index.source).1 secondOld
            exact Nat.le_antisymm fits (full ▸ grown)
        · rw [sound.grown_size acceptable entry (Nat.zero_le _)] at unlisted
          exact absurd selected unlisted
      · rw [sound.grown_size acceptable entry (Nat.zero_le _)] at listed
        exact (sound.size_mem_grown_or_full acceptable entry
          listed).resolve_left unlisted

/-- A point that does not list back one by which it is listed on level 0 has a
full run there. -/
theorem Reachable.full_of_one_sided [UniformSource σ]
    (reachable : index.Reachable) (lists : index.Lists 0 first second)
    (oneSided : ¬ index.Lists 0 second first) :
    ∃ neighbors, index.neighbors? second 0 = .ok (some neighbors) ∧
      neighbors.length = 2 * index.settings.branching := by
  obtain ⟨runs, sound, saturated⟩ := reachable.induction preserved_saturated
    fun isFresh _ _ reaches => (isFresh.not_reaches reaches).elim
  obtain ⟨reaches, listed⟩ := sound.lists_iff.mp lists
  have secondReaches := sound.proper.reaches reaches listed
  refine ⟨_, sound.neighbors?_eq secondReaches, ?_⟩
  rw [saturated reaches listed fun member =>
    oneSided (sound.lists_iff.mpr ⟨secondReaches, member⟩),
    ← sound.neighborBound_eq]
  rfl

/-- The entry point of the line lists the second point, which has dropped
it. -/
theorem line_full_of_one_sided : ∃ line : Index (Cycle Float),
    line.Reachable ∧ line.Lists 0 0 1 ∧ ¬ line.Lists 0 1 0 ∧
    ∃ neighbors, line.neighbors? 1 0 = .ok (some neighbors) ∧
      neighbors.length = 2 * line.settings.branching := by
  obtain ⟨line, isLine⟩ := exists_isLine
  have reaches : line.links.Reaches 0 0 :=
    isLine.sound.reaches_zero.mpr (by rw [isLine.size_eq]; decide)
  have lists : line.Lists 0 0 1 :=
    isLine.sound.lists_iff.mpr ⟨reaches, by decide +kernel⟩
  have oneSided : ¬ line.Lists 0 1 0 := fun back =>
    absurd (isLine.sound.lists_iff.mp back).2 (by decide +kernel)
  exact ⟨line, isLine.reachable, lists, oneSided,
    isLine.reachable.full_of_one_sided lists oneSided⟩

end SmallWorld.Index
