import SmallWorld.Dataset.Basic
import SmallWorld.Index.Audit
import SmallWorld.Index.Insertion
import SmallWorld.Index.Query

/-!
# Trials

A trial builds an index over a dataset and measures how well searches of
several widths find the true neighbours of the test vectors.
-/

namespace SmallWorld

structure TrialRow where
  width : Nat
  meanRecall : Scalar
  work : Work
  retrieved : List (List PointId)

structure Trial where
  rows : List TrialRow
  violations : Nat
  reachable : Nat
  orphans : Nat

namespace Trial

def row (index : Index Congruential) (dataset : Dataset)
    (truths : List (List PointId)) (count width : Nat) :
    Except Failure TrialRow := do
  let answers ← dataset.test.mapM fun query =>
    index.searchWithWork query count width
  let retrieved := answers.map fun answer => answer.1.map Hit.id
  let work := answers.foldl (fun total answer => total + answer.2) Work.zero
  pure
    { width
      meanRecall := meanRecall truths retrieved count
      work
      retrieved }

/-- Build an index over the train vectors of a dataset, and search it with
beams of the given widths. -/
def run (dataset : Dataset) (settings : Settings) (count : Nat)
    (widths : List Nat) : Except Failure Trial := do
  let index ← (Index.ofSettings dataset.dimension settings).outcome
  let (_, _, index) ← (index.insertAll dataset.train).outcome
  let truths := dataset.groundTruth count
  let rows ← widths.mapM (row index dataset truths count)
  let violations ← index.audit
  let (reachable, orphans) ← index.connectivity 0
  pure { rows, violations := violations.length, reachable, orphans }

end Trial

end SmallWorld
