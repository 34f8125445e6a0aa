import Mathlib.Tactic
import SmallWorld.Links

/-!
# The layout of the slots

The blocks of all points follow each other without gaps, and so do the runs
in a block.  `Links.Laid` says so, and gives each run its place: the runs of
different points or different levels share no slot (`address_separate`).
-/

namespace SmallWorld

namespace LevelTable

theorem runStart_mono (table : LevelTable) : Monotone table.runStart :=
  monotone_nat_of_le_succ fun _ => Nat.le_add_right _ _

theorem runStart_add_runLength_le (table : LevelTable) {level higher : Nat}
    (below : level < higher) :
    table.runStart level + table.runLength level ≤ table.runStart higher :=
  table.runStart_mono below

end LevelTable

namespace Links

/-- The slots of the blocks before a point. -/
def blockStart (links : Links) (id : PointId) : Nat :=
  ((links.levels.toList.take id).map
    fun level => links.table.runStart (level + 1)).sum

/-- Whether a point exists and is on the given level or a higher one. -/
def Reaches (links : Links) (level : Nat) (id : PointId) : Prop :=
  ∃ own, links.levels[id]? = some own ∧ level ≤ own

def address (links : Links) (id : PointId) (level : Nat) : Nat :=
  links.blockStart id + links.table.runStart level

structure Laid (links : Links) : Prop where
  size_le : links.size ≤ greatestSize
  listed : ∀ own ∈ links.levels, own < links.table.count
  offset_eq : ∀ id ≤ links.size,
    links.offsets[id]? = some (links.blockStart id)
  offsets_size : links.offsets.size = links.size + 1
  slots_size : links.slots.size = links.blockStart links.size

variable {links : Links} {id other : PointId} {level level' own : Nat}

theorem Reaches.lt_size (reaches : links.Reaches level id) :
    id < links.size := by
  obtain ⟨own, found, _⟩ := reaches
  exact (Array.getElem?_eq_some_iff.mp found).1

theorem Reaches.of_le (reaches : links.Reaches level id)
    (below : level' ≤ level) : links.Reaches level' id := by
  obtain ⟨own, found, above⟩ := reaches
  exact ⟨own, found, below.trans above⟩

theorem reaches_zero_iff : links.Reaches 0 id ↔ id < links.size := by
  refine ⟨Reaches.lt_size, fun inside => ?_⟩
  exact ⟨links.levels[id], Array.getElem?_eq_getElem inside,
    Nat.zero_le _⟩

theorem blockStart_succ (found : links.levels[id]? = some own) :
    links.blockStart (id + 1) =
      links.blockStart id + links.table.runStart (own + 1) := by
  have listed : links.levels.toList[id]? = some own := by
    rwa [Array.getElem?_toList]
  unfold blockStart
  rw [List.take_add_one, listed]
  simp

/-- The levels and the table determine where the blocks start. -/
theorem blockStart_congr {first second : Links}
    (table : first.table = second.table)
    (levels : first.levels = second.levels) :
    first.blockStart = second.blockStart := by
  funext id
  rw [blockStart, blockStart, table, levels]

theorem blockStart_mono (links : Links) : Monotone links.blockStart := by
  refine monotone_nat_of_le_succ fun id => ?_
  unfold blockStart
  rw [List.take_add_one, List.map_append, List.sum_append]
  exact Nat.le_add_right _ _

theorem address_add_le (reaches : links.Reaches level id) :
    links.address id level + links.table.runLength level ≤
      links.blockStart (id + 1) := by
  obtain ⟨own, found, above⟩ := reaches
  have inside := links.table.runStart_add_runLength_le
    (show level < own + 1 by omega)
  rw [blockStart_succ found]
  unfold address
  omega

/-- Two runs share no slot. -/
theorem address_separate (reaches : links.Reaches level id)
    (reaches' : links.Reaches level' other)
    (different : id ≠ other ∨ level ≠ level') :
    links.address id level + links.table.runLength level ≤
        links.address other level' ∨
      links.address other level' + links.table.runLength level' ≤
        links.address id level := by
  have before : ∀ {first second : PointId}, first < second →
      links.blockStart (first + 1) ≤ links.blockStart second :=
    fun less => links.blockStart_mono less
  rcases Nat.lt_trichotomy id other with less | equal | greater
  · left
    exact (address_add_le reaches).trans
      ((before less).trans (Nat.le_add_right _ _))
  · subst equal
    have levels : level ≠ level' := different.resolve_left fun h => h rfl
    unfold address
    rcases Nat.lt_or_gt_of_ne levels with lower | higher
    · left
      have := links.table.runStart_add_runLength_le lower
      omega
    · right
      have := links.table.runStart_add_runLength_le higher
      omega
  · right
    exact (address_add_le reaches').trans
      ((before greater).trans (Nat.le_add_right _ _))

namespace Laid

theorem lt_count (laid : links.Laid) (reaches : links.Reaches level id) :
    level < links.table.count := by
  obtain ⟨own, found, above⟩ := reaches
  exact lt_of_le_of_lt above
    (laid.listed own (Array.mem_of_getElem? found))

theorem address_add_le_size (laid : links.Laid)
    (reaches : links.Reaches level id) :
    links.address id level + links.table.runLength level ≤
      links.slots.size := by
  rw [laid.slots_size]
  exact (address_add_le reaches).trans
    (links.blockStart_mono reaches.lt_size)

theorem bounds_eq (laid : links.Laid) (reaches : links.Reaches level id) :
    links.bounds id level =
      .ok (links.address id level, links.table.runLength level) := by
  have inside := reaches.lt_size
  have listed := laid.lt_count reaches
  obtain ⟨own, found, above⟩ := reaches
  have ownLevel : links.level id = .ok own := by
    simp only [Links.level, found]
  have base : links.offset id = .ok (links.blockStart id) := by
    simp only [Links.offset, laid.offset_eq id inside.le]
  have place : links.table.run level =
      .ok (links.table.runStart level, links.table.runLength level) := by
    simp only [LevelTable.run, listed, if_true]
  simp only [bounds, ownLevel, base, place, bind, Except.bind, above, if_true]
  rfl

theorem run_eq (laid : links.Laid) (reaches : links.Reaches level id) :
    links.run id level = .ok (links.slots.extract (links.address id level)
      (links.address id level + links.table.runLength level)).toList := by
  simp only [run, laid.bounds_eq reaches, bind, Except.bind,
    laid.address_add_le_size reaches, if_true]
  rfl

end Laid

end Links

end SmallWorld
