import SmallWorld.Hit
import SmallWorld.Traversal.Layer
import SmallWorld.Work

/-!
# Beam search

A beam explores one layer from a few seeds, nearest point first, and keeps
the best hits up to its width.  It stops when its best open hit is farther
than the worst hit of a full beam, or when no hit is open.

Each point is measured once.  A point that is met opens only if there is room
for it among the kept hits, so the number of points not seen yet together
with the number of open hits falls with every hit that is closed.
-/

namespace SmallWorld

structure Beam where
  /-- The hits whose neighbours have not been looked at, in order. -/
  frontier : List Hit
  /-- The best hits met so far, in order. -/
  kept : List Hit
  /-- All points met so far. -/
  seen : Std.HashSet PointId
  /-- The number of points measured; seeds come with their distance. -/
  measured : Nat
  /-- The number of hits whose neighbours have been looked at. -/
  expanded : Nat

namespace Beam

/-- The state before the first seed. -/
def empty : Beam where
  frontier := []
  kept := []
  seen := ∅
  measured := 0
  expanded := 0

/-- Open a hit and keep it, dropping the worst kept hit if there are more
than `width` of them. -/
def keep (width : Nat) (hit : Hit) (beam : Beam) : Beam :=
  { beam with
    frontier := hit.insert beam.frontier
    kept := (hit.insert beam.kept).take width }

/-- Start at a seed, unless its point has been met. -/
def seed (width : Nat) (beam : Beam) (hit : Hit) : Beam :=
  if beam.seen.contains hit.id then
    beam
  else
    { beam with seen := beam.seen.insert hit.id }.keep width hit

def ofSeeds (width : Nat) (seeds : List Hit) : Beam :=
  seeds.foldl (seed width) empty

def note (beam : Beam) (id : PointId) : Beam :=
  { beam with
    seen := beam.seen.insert id
    measured := beam.measured + 1 }

/-- Whether the kept hits leave room for one at the given distance: there are
fewer than `width`, or the worst of them is farther. -/
def hasRoom (width : Nat) (beam : Beam) (distance : Scalar) : Bool :=
  if beam.kept.length < width then
    true
  else
    match beam.kept.getLast? with
    | some worst => distance < worst.distance
    | none => false

/-- Whether no open hit can lead to a better one: the beam is full and its
worst hit is nearer than the nearest open one. -/
def isSettled (width : Nat) (beam : Beam) (next : Hit) : Bool :=
  if beam.kept.length < width then
    false
  else
    match beam.kept.getLast? with
    | some worst => worst.distance < next.distance
    | none => Scalar.infinity < next.distance

def work (beam : Beam) : Work where
  distances := beam.measured
  visited := beam.seen.size
  hops := beam.expanded

/-- What is left to do in a layer of the given size: the points not seen, and
the open hits. -/
def pending (size : Nat) (beam : Beam) : Nat :=
  unseenCount size beam.seen + beam.frontier.length

end Beam

namespace Layer

/-- Meet a neighbour: measure it unless it has been met, and keep it if there
is room. -/
def meet (layer : Layer) (width : Nat) (beam : Beam) (id : PointId) :
    Except Fault Beam :=
  if beam.seen.contains id then
    .ok beam
  else
    match layer.distance id with
    | .error fault => .error fault
    | .ok distance =>
        if beam.hasRoom width distance then
          .ok ((beam.note id).keep width { distance, id })
        else
          .ok (beam.note id)

def meetAll (layer : Layer) (width : Nat) :
    Beam → List PointId → Except Fault Beam
  | beam, [] => .ok beam
  | beam, id :: rest =>
      match layer.meet width beam id with
      | .error fault => .error fault
      | .ok beam => layer.meetAll width beam rest

/-- Close the nearest open hit and meet its neighbours. -/
def expand (layer : Layer) (width : Nat) (beam : Beam) (next : Hit)
    (rest : List Hit) : Except Fault Beam :=
  match layer.neighbors next.id with
  | .error fault => .error fault
  | .ok neighbors =>
      layer.meetAll width
        { beam with frontier := rest, expanded := beam.expanded + 1 }
        neighbors

/-- Meeting a neighbour does not add to what is left to do. -/
private theorem pending_meet_le {layer : Layer} {width : Nat}
    {beam result : Beam} {id : PointId}
    (met : layer.meet width beam id = .ok result) :
    result.pending layer.size ≤ beam.pending layer.size := by
  unfold meet at met
  cases fresh : beam.seen.contains id with
  | true =>
      rw [fresh] at met
      cases met
      exact Nat.le_refl _
  | false =>
      rw [fresh] at met
      cases measured : layer.distance id with
      | error fault =>
          rw [measured] at met
          cases met
      | ok distance =>
          rw [measured] at met
          have fewer :=
            unseenCount_insert_lt fresh (layer.lt_size measured)
          simp only [Bool.false_eq_true, if_false] at met
          split at met
          · cases met
            simp only [Beam.pending, Beam.keep, Beam.note,
              Hit.length_insert]
            omega
          · cases met
            simp only [Beam.pending, Beam.note]
            omega

private theorem pending_meetAll_le {layer : Layer} {width : Nat}
    {neighbors : List PointId} {beam result : Beam}
    (met : layer.meetAll width beam neighbors = .ok result) :
    result.pending layer.size ≤ beam.pending layer.size := by
  induction neighbors generalizing beam with
  | nil =>
      cases met
      exact Nat.le_refl _
  | cons id rest inductionHypothesis =>
      unfold meetAll at met
      split at met
      · cases met
      · next first =>
          exact Nat.le_trans (inductionHypothesis met)
            (pending_meet_le first)

theorem pending_expand_lt {layer : Layer} {width : Nat}
    {beam result : Beam} {next : Hit} {rest : List Hit}
    (nearestOpen : beam.frontier = next :: rest)
    (expanded : layer.expand width beam next rest = .ok result) :
    result.pending layer.size < beam.pending layer.size := by
  unfold expand at expanded
  split at expanded
  · cases expanded
  · have bound := pending_meetAll_le expanded
    simp only [Beam.pending] at bound ⊢
    rw [nearestOpen]
    simp only [List.length_cons]
    omega

/-- Close open hits, nearest first, until the beam is settled or no hit is
open. -/
def explore (layer : Layer) (width : Nat) (beam : Beam) : Except Fault Beam :=
  match _ : beam.frontier with
  | [] => .ok beam
  | next :: rest =>
      if beam.isSettled width next then
        .ok beam
      else
        match _ : layer.expand width beam next rest with
        | .error fault => .error fault
        | .ok beam => layer.explore width beam
termination_by beam.pending layer.size
decreasing_by
  exact pending_expand_lt ‹_› ‹_›

/-- Search a layer from the given seeds, keeping at most `width` hits.  A width
may be any natural number: the fault of setting space aside for a huge one, of
which a multiple may be no machine word, is left out. -/
def search (layer : Layer) (seeds : List Hit) (width : Nat) :
    Except Fault Beam :=
  layer.explore width (Beam.ofSeeds width seeds)

end Layer

end SmallWorld
