import SmallWorld.Index.Basic

/-!
# Tampering

Writes into the parts of an index that nothing checks.  They make the broken
graphs on which audits are tried, as are the two indexes broken by hand at the
end: one in its runs, the other in its root.
-/

namespace SmallWorld.Index

variable {σ : Type}

/-- Replace the neighbours listed in a run by any numbers. -/
def tamperRun (index : Index σ) (id : PointId) (level : Nat)
    (neighbors : List PointId) : Except Fault (Index σ) := do
  let links ← index.links.overwrite id level neighbors
  pure { index with links }

def tamperEntry (index : Index σ) (entryPoint : Option PointId) : Index σ :=
  { index with entryPoint }

def tamperTopLevel (index : Index σ) (topLevel : Nat) : Index σ :=
  { index with topLevel }

/-- Replace one of the offsets between blocks. -/
def tamperOffset (index : Index σ) (position value : Nat) :
    Except Fault (Index σ) :=
  if position < index.links.offsets.size then
    let offsets := index.links.offsets.setIfInBounds position value
    .ok { index with links := { index.links with offsets } }
  else
    .error .outOfBounds

/-- Three points, two of which are only on level 0.  The runs of the first one
have every defect that a run can have, and the last block lacks a slot. -/
def scarred : Index Unit where
  settings :=
    { branching := 2, constructionWidth := 1, searchWidth := 1, seed := 0 }
  cloud :=
    { dimension := 1, vectors := #[[.ofBits 0], [.ofBits 0], [.ofBits 0]] }
  links :=
    { table :=
        { branching := 2
          probabilities :=
            [.ofBits 0x3fe0000000000000, .ofBits 0x3fd0000000000000] }
      slots := #[0, 9, 1, 1, 2, noNeighbor, 0, noNeighbor, 2, noNeighbor,
        0, noNeighbor, noNeighbor]
      offsets := #[0, 6, 10, 13]
      levels := #[1, 0, 0] }
  entryPoint := some 1
  topLevel := 1
  source := ()

/-- Two linked points, the first of which is on level 1.  The entry point is
the other one, and the top level is the level of that. -/
def lopsided : Index Unit where
  settings :=
    { branching := 2, constructionWidth := 1, searchWidth := 1, seed := 0 }
  cloud := { dimension := 1, vectors := #[[.ofBits 0], [.ofBits 0x3f800000]] }
  links :=
    { table :=
        { branching := 2
          probabilities :=
            [.ofBits 0x3fe0000000000000, .ofBits 0x3fd0000000000000] }
      slots := #[1, noNeighbor, noNeighbor, noNeighbor, noNeighbor, noNeighbor,
        0, noNeighbor, noNeighbor, noNeighbor]
      offsets := #[0, 6, 10]
      levels := #[1, 0] }
  entryPoint := some 1
  topLevel := 0
  source := ()

end SmallWorld.Index
