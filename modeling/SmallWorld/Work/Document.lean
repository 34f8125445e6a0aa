import SmallWorld.Json
import SmallWorld.Work

/-!
# Work as documents

The work of a search is written as a JSON object with one field for each
count.  A document has to hold all of them, and may hold fields of other
names, which do not matter.  An array gives the counts in their order.
-/

namespace SmallWorld.Work

def distancesField : String := "distance_computations"

def visitedField : String := "visited"

def hopsField : String := "hops"

/-- The number in a field that occurs once. -/
def field? (fields : List (Option String × Json)) (name : String) :
    Option Nat :=
  match fields.filter fun field => field.1 == some name with
  | [field] => field.2.word?
  | _ => none

def ofJson? : Json → Option Work
  | .object fields => do
      let distances ← field? fields distancesField
      let visited ← field? fields visitedField
      let hops ← field? fields hopsField
      pure { distances, visited, hops }
  | .array [distances, visited, hops] => do
      let distances ← distances.word?
      let visited ← visited.word?
      let hops ← hops.word?
      pure { distances, visited, hops }
  | _ => none

def fields (work : Work) : List (String × Nat) :=
  [(distancesField, work.distances), (visitedField, work.visited),
    (hopsField, work.hops)]

/-- The running totals of several traversals. -/
def totals : Work → List Work → List Work
  | _, [] => []
  | total, work :: rest => (total + work) :: totals (total + work) rest

end SmallWorld.Work
