import SmallWorld.Links

/-!
# Operations on links

Links change by three operations: a block is appended for a new point, a
neighbour is appended to a run, and the neighbours of a run are replaced.
Each operation has an answer, and a refused one leaves the links as they were.
-/

namespace SmallWorld.Links

inductive Operation where
  | allocate (level : Nat)
  | add (id : PointId) (level : Nat) (neighbor : PointId)
  | overwrite (id : PointId) (level : Nat) (neighbors : List PointId)

inductive Answer where
  /-- A block has been appended for the point of this number. -/
  | allocated (id : PointId)
  | refused (refusal : Refusal)
  | linked (result : LinkResult)
  | overwritten
  deriving DecidableEq

def perform (links : Links) : Operation → Except Fault (Answer × Links)
  | .allocate level =>
      match links.allocate level with
      | .ok (id, links) => .ok (.allocated id, links)
      | .error (.refused refusal) => .ok (.refused refusal, links)
      | .error (.faulted fault) => .error fault
  | .add id level neighbor => do
      let (result, links) ← links.add id level neighbor
      pure (.linked result, links)
  | .overwrite id level neighbors => do
      let links ← links.overwrite id level neighbors
      pure (.overwritten, links)

def performAll (links : Links) :
    List Operation → Except Fault (List Answer × Links)
  | [] => .ok ([], links)
  | operation :: rest => do
      let (answer, links) ← links.perform operation
      let (answers, links) ← links.performAll rest
      pure (answer :: answers, links)

end SmallWorld.Links
