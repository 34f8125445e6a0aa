import Mathlib.Data.List.Basic
import SmallWorld.LevelTable

/-!
# Levels that can be drawn

Whatever number a source yields, the level that it falls on is listed, unless
the table is empty.  A table lists at most a hundred levels, and it lists
level 0 unless the probability of that level is too small.
-/

namespace SmallWorld.LevelTable

variable {table : LevelTable} {probabilityOf : Nat → Float}

theorem locate_le {top : Nat} (probabilities : List Float) {level : Nat}
    (inside : level + probabilities.length ≤ top + 1) (value : Float) :
    locate top level probabilities value ≤ top := by
  induction probabilities generalizing level value with
  | nil => exact Nat.le_refl top
  | cons probability rest inductionHypothesis =>
      rw [List.length_cons] at inside
      rw [locate]
      split
      · omega
      · exact inductionHypothesis (by omega) _

theorem levelAt_lt_count (listed : 0 < table.count) (value : Float) :
    table.levelAt value < table.count := by
  have below : table.levelAt value ≤ table.count - 1 :=
    locate_le table.probabilities (by rw [top, count]; omega) value
  omega

theorem draw_lt_count {σ : Type} [UniformSource σ]
    (listed : 0 < table.count) (source : σ) :
    (table.draw source).1 < table.count :=
  levelAt_lt_count listed _

/-- The table lists the given probabilities, from level 0 up to the first one
that is too small. -/
def Tabulates (table : LevelTable) (probabilityOf : Nat → Float) : Prop :=
  table.probabilities =
    ((List.range greatestCount).map probabilityOf).takeWhile
      fun value => !(decide (value < leastProbability))

theorem tabulates_of_ofBranching {branching : Nat}
    (built : ofBranching branching = .ok table) :
    table.Tabulates (probability branching.toUInt64.toFloat.log) := by
  rw [ofBranching] at built
  split at built
  · cases built
  · cases built
    rfl

namespace Tabulates

theorem count_le (tabulates : table.Tabulates probabilityOf) :
    table.count ≤ greatestCount := by
  rw [count, tabulates]
  apply Nat.le_trans (List.takeWhile_sublist _).length_le
  simp

theorem count_pos (tabulates : table.Tabulates probabilityOf)
    (first : ¬ probabilityOf 0 < leastProbability) : 0 < table.count := by
  rw [count, tabulates, greatestCount, List.range_succ_eq_map, List.map_cons,
    List.takeWhile_cons_of_pos (by simpa using first)]
  exact Nat.zero_lt_succ _

end Tabulates

end SmallWorld.LevelTable
