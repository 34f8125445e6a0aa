import SmallWorld.Index.Query
import SmallWorld.Index.Run

/-!
# Sessions

An index serves requests one after the other.  Some add points; the others,
which are queries and looks at the graph, leave the index as it is.
-/

namespace SmallWorld

inductive Request where
  | add (call : Call)
  | search (query : Coordinates) (count : Nat)
  | searchWidth (query : Coordinates) (count width : Nat)
  | searchWithWork (query : Coordinates) (count width : Nat)
  | audit
  | connectivity (level : Nat)

namespace Index

variable {σ : Type}

def serve [UniformSource σ] (index : Index σ) :
    Request → Except Fault (Index σ)
  | .add call => index.apply call
  | .search query count =>
      index.settleCall ((index.search query count).map fun _ => index)
  | .searchWidth query count width =>
      index.settleCall
        ((index.searchWidth query count width).map fun _ => index)
  | .searchWithWork query count width =>
      index.settleCall
        ((index.searchWithWork query count width).map fun _ => index)
  | .audit => index.audit.map fun _ => index
  | .connectivity level => (index.connectivity level).map fun _ => index

def serveAll [UniformSource σ] (index : Index σ) :
    List Request → Except Fault (Index σ)
  | [] => .ok index
  | request :: rest => do
      let next ← index.serve request
      next.serveAll rest

end Index

end SmallWorld
