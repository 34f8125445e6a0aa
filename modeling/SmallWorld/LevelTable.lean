import SmallWorld.Failure
import SmallWorld.Source.Basic

/-!
# The table of levels

A new point is put on level `l` with a probability that falls by the factor
`branching` from each level to the next.  The table ends before the first
level whose probability is below `LevelTable.leastProbability`, and what the
listed probabilities lack to one goes to the last level.

The table also fixes how many neighbours a run holds at each level, and with
that where the runs of a point lie within its block of slots.
-/

namespace SmallWorld

/-- The levels on which points can be put, each with its probability. -/
structure LevelTable where
  branching : Nat
  probabilities : List Float

namespace LevelTable

/-- Levels with a smaller probability are not listed. -/
def leastProbability : Float := .ofBits 0x3e112e0be826d695

def greatestCount : Nat := 100

/-- The probability of a level, for the given logarithm of the branching. -/
def probability (logarithm : Float) (level : Nat) : Float :=
  let one : Float := .ofBits 0x3ff0000000000000
  let scale := one / logarithm
  (-(level.toUInt64.toFloat) / scale).exp * (one - (-one / scale).exp)

/-- The table for a branching of at least two. -/
def ofBranching (branching : Nat) : Except Refusal LevelTable :=
  if branching < 2 then
    .error (.invalid (.smallBranching branching))
  else
    let logarithm := branching.toUInt64.toFloat.log
    let listed := (List.range greatestCount).map (probability logarithm)
    .ok
      { branching
        probabilities :=
          listed.takeWhile fun value => !(decide (value < leastProbability)) }

def count (table : LevelTable) : Nat :=
  table.probabilities.length

/-- The highest level, and level 0 for an empty table. -/
def top (table : LevelTable) : Nat :=
  table.count - 1

/-- The level that a number falls on when each level takes an interval as
long as its probability, from level `level` on.  The highest level of all
takes what is left. -/
def locate (top : Nat) : (level : Nat) → List Float → Float → Nat
  | _, [], _ => top
  | level, probability :: rest, value =>
      if value < probability then
        level
      else
        locate top (level + 1) rest (value - probability)

/-- The level that a number in `[0, 1)` falls on. -/
def levelAt (table : LevelTable) (value : Float) : Nat :=
  locate table.top 0 table.probabilities value

def draw {σ : Type} [UniformSource σ] (table : LevelTable) (source : σ) :
    Nat × σ :=
  let (value, source) := UniformSource.draw source
  (table.levelAt value, source)

def draws {σ : Type} [UniformSource σ] (table : LevelTable) :
    Nat → σ → List Nat × σ
  | 0, source => ([], source)
  | count + 1, source =>
      let (level, source) := table.draw source
      let (levels, source) := table.draws count source
      (level :: levels, source)

/-- The number of slots of a run at a level, listed or not.  Like the sums of
such numbers it is not limited to a machine word, and for a huge branching
there may be no space for so many slots; such faults are left out. -/
def runLength (table : LevelTable) (level : Nat) : Nat :=
  if level = 0 then 2 * table.branching else table.branching

/-- The number of slots of the runs below a level. -/
def runStart (table : LevelTable) : (level : Nat) → Nat
  | 0 => 0
  | level + 1 => table.runStart level + table.runLength level

/-- Where the run of a level starts within the block of a point, and its
length; there is no run at a level that is not listed. -/
def run (table : LevelTable) (level : Nat) : Except Fault (Nat × Nat) :=
  if level < table.count then
    .ok (table.runStart level, table.runLength level)
  else
    .error .outOfBounds

/-- The number of neighbours that a run at a listed level holds at most. -/
def capacity (table : LevelTable) (level : Nat) : Except Fault Nat :=
  if level < table.count then
    .ok (table.runLength level)
  else
    .error .outOfBounds

/-- The number of slots of a point on a listed level. -/
def blockLength (table : LevelTable) (level : Nat) : Except Fault Nat :=
  if level < table.count then
    .ok (table.runStart (level + 1))
  else
    .error .outOfBounds

end LevelTable

end SmallWorld
