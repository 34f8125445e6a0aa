import SmallWorld.Proofs.Journal
import SmallWorld.Proofs.Traversal.Sweep

/-!
# What a traversal does

A traversal counts its work.  The noted traversals of this file do the same
and write down what they do: each time that a point is measured, and each time
that the neighbours of a point are looked at, its number is put at the end of
a list.  Without the notes they are the traversals themselves
(`Layer.map_searchNoted`, `descendNoted_of_descend`), so the notes say what a
traversal has done.
-/

namespace SmallWorld

/-- The points whose neighbours have been looked at and those that have been
measured, in the order in which it was done. -/
structure Trail where
  expanded : List PointId
  measured : List PointId

namespace Trail

def empty : Trail where
  expanded := []
  measured := []

def expand (trail : Trail) (id : PointId) : Trail :=
  { trail with expanded := trail.expanded ++ [id] }

def measure (trail : Trail) (id : PointId) : Trail :=
  { trail with measured := trail.measured ++ [id] }

def pass (trail : Trail) (id : PointId) (neighbors : List PointId) : Trail where
  expanded := trail.expanded ++ [id]
  measured := trail.measured ++ neighbors

/-- The work of a descent that has left these notes. -/
def work (trail : Trail) : Work where
  distances := trail.measured.length
  visited := 0
  hops := trail.expanded.length

theorem work_pass (trail : Trail) (id : PointId) (neighbors : List PointId) :
    (trail.pass id neighbors).work = trail.work +
      { distances := neighbors.length, visited := 0, hops := 1 } := by
  unfold work pass
  rw [List.length_append, List.length_append]
  rfl

end Trail

namespace Layer

def meetNoted (layer : Layer) (width : Nat) (beam : Beam) (trail : Trail)
    (id : PointId) : Except Fault (Beam × Trail) :=
  if beam.seen.contains id then
    .ok (beam, trail)
  else
    match layer.distance id with
    | .error fault => .error fault
    | .ok distance =>
        if beam.hasRoom width distance then
          .ok ((beam.note id).keep width { distance, id }, trail.measure id)
        else
          .ok (beam.note id, trail.measure id)

def meetAllNoted (layer : Layer) (width : Nat) :
    Beam → Trail → List PointId → Except Fault (Beam × Trail)
  | beam, trail, [] => .ok (beam, trail)
  | beam, trail, id :: rest =>
      match layer.meetNoted width beam trail id with
      | .error fault => .error fault
      | .ok (beam, trail) => layer.meetAllNoted width beam trail rest

def expandNoted (layer : Layer) (width : Nat) (beam : Beam) (trail : Trail)
    (next : Hit) (rest : List Hit) : Except Fault (Beam × Trail) :=
  match layer.neighbors next.id with
  | .error fault => .error fault
  | .ok neighbors =>
      layer.meetAllNoted width
        { beam with frontier := rest, expanded := beam.expanded + 1 }
        (trail.expand next.id) neighbors

variable {layer : Layer} {width : Nat} {beam : Beam} {trail : Trail}

theorem map_meetNoted (id : PointId) :
    (layer.meetNoted width beam trail id).map Prod.fst =
      layer.meet width beam id := by
  unfold meetNoted meet
  split
  · rfl
  · cases layer.distance id with
    | error fault => rfl
    | ok distance =>
        dsimp only
        split
        · rfl
        · rfl

theorem map_meetAllNoted (ids : List PointId) :
    (layer.meetAllNoted width beam trail ids).map Prod.fst =
      layer.meetAll width beam ids := by
  induction ids generalizing beam trail with
  | nil => rfl
  | cons id rest inductionHypothesis =>
      unfold meetAllNoted meetAll
      rw [← map_meetNoted]
      cases layer.meetNoted width beam trail id with
      | error fault => rfl
      | ok noted => exact inductionHypothesis

theorem map_expandNoted (next : Hit) (rest : List Hit) :
    (layer.expandNoted width beam trail next rest).map Prod.fst =
      layer.expand width beam next rest := by
  unfold expandNoted expand
  cases layer.neighbors next.id with
  | error fault => rfl
  | ok neighbors => exact map_meetAllNoted neighbors

theorem expand_of_noted {next : Hit} {rest : List Hit} {result : Beam}
    {trail' : Trail} (noted : layer.expandNoted width beam trail next rest =
      .ok (result, trail')) :
    layer.expand width beam next rest = .ok result := by
  rw [← map_expandNoted, noted]
  rfl

def exploreNoted (layer : Layer) (width : Nat) (beam : Beam) (trail : Trail) :
    Except Fault (Beam × Trail) :=
  match _ : beam.frontier with
  | [] => .ok (beam, trail)
  | next :: rest =>
      if beam.isSettled width next then
        .ok (beam, trail)
      else
        match _ : layer.expandNoted width beam trail next rest with
        | .error fault => .error fault
        | .ok (beam, trail) => layer.exploreNoted width beam trail
termination_by beam.pending layer.size
decreasing_by
  exact pending_expand_lt ‹_› (expand_of_noted ‹_›)

/-- Search a layer, with notes. -/
def searchNoted (layer : Layer) (seeds : List Hit) (width : Nat) :
    Except Fault (Beam × Trail) :=
  layer.exploreNoted width (Beam.ofSeeds width seeds) Trail.empty

theorem map_exploreNoted (width : Nat) (beam : Beam) (trail : Trail) :
    (layer.exploreNoted width beam trail).map Prod.fst =
      layer.explore width beam := by
  fun_induction exploreNoted layer width beam trail with
  | case1 beam trail closed => exact (explore_of_closed closed).symm
  | case2 beam trail next rest open_ settled =>
      exact (explore_of_settled open_ settled).symm
  | case3 beam trail next rest open_ unsettled fault failed =>
      refine (explore_of_fault open_ (Bool.eq_false_iff.mpr unsettled) ?_).symm
      rw [← map_expandNoted, failed]
      rfl
  | case4 beam trail next rest open_ unsettled result trail' noted
      inductionHypothesis =>
      rw [explore_of_expand open_ (Bool.eq_false_iff.mpr unsettled)
        (expand_of_noted noted)]
      exact inductionHypothesis

/-- Without the notes it is the search itself. -/
theorem map_searchNoted (seeds : List Hit) (width : Nat) :
    (layer.searchNoted seeds width).map Prod.fst =
      layer.search seeds width :=
  map_exploreNoted _ _ _

theorem exists_noted_of_search {seeds : List Hit}
    (searched : layer.search seeds width = .ok beam) :
    ∃ trail, layer.searchNoted seeds width = .ok (beam, trail) := by
  rw [← map_searchNoted] at searched
  cases noted : layer.searchNoted seeds width with
  | error fault =>
      rw [noted] at searched
      cases searched
  | ok result =>
      rw [noted] at searched
      cases searched
      exact ⟨result.2, rfl⟩

def nearestNoted (layer : Layer) :
    Hit → Trail → List PointId → Except Fault (Hit × Trail)
  | best, trail, [] => .ok (best, trail)
  | best, trail, neighbor :: rest => do
      let distance ← layer.distance neighbor
      if distance < best.distance then
        layer.nearestNoted { distance, id := neighbor }
          (trail.measure neighbor) rest
      else
        layer.nearestNoted best (trail.measure neighbor) rest

theorem nearestNoted_eq (best : Hit) (trail : Trail) (ids : List PointId) :
    layer.nearestNoted best trail ids = (layer.nearest best ids).map fun next =>
      (next, { trail with measured := trail.measured ++ ids }) := by
  induction ids generalizing best trail with
  | nil =>
      unfold nearestNoted nearest
      rw [List.append_nil]
      rfl
  | cons neighbor rest inductionHypothesis =>
      unfold nearestNoted nearest
      cases layer.distance neighbor with
      | error fault => rfl
      | ok distance =>
          simp only [ok_bind, inductionHypothesis, Trail.measure,
            List.append_assoc, List.singleton_append]
          split
          · rfl
          · rfl

theorem nearest_of_noted {best next : Hit} {trail' : Trail}
    {ids : List PointId}
    (noted : layer.nearestNoted best trail ids = .ok (next, trail')) :
    layer.nearest best ids = .ok next := by
  rw [nearestNoted_eq] at noted
  cases passed : layer.nearest best ids with
  | error fault =>
      rw [passed] at noted
      cases noted
  | ok result =>
      rw [passed] at noted
      cases noted
      rfl

def settleNoted (layer : Layer) (best : Hit) (trail : Trail) :
    Except Fault (Hit × Trail) :=
  match layer.neighbors best.id with
  | .error fault => .error fault
  | .ok neighbors =>
      match _ : layer.nearestNoted best (trail.expand best.id) neighbors with
      | .error fault => .error fault
      | .ok (next, trail) =>
          if _ : next.distance < best.distance then
            layer.settleNoted next trail
          else
            .ok (best, trail)
termination_by layer.nearerCount best.distance
decreasing_by
  exact nearerCount_lt_of_nearest (nearest_of_noted ‹_›) ‹_›

/-- A pass notes the point from which it starts and measures all neighbours of
that point. -/
theorem settleNoted_of_pass {best next : Hit} {neighbors : List PointId}
    (listed : layer.neighbors best.id = .ok neighbors)
    (passed : layer.nearest best neighbors = .ok next) (trail : Trail) :
    layer.settleNoted best trail =
      if next.distance < best.distance then
        layer.settleNoted next (trail.pass best.id neighbors)
      else
        .ok (best, trail.pass best.id neighbors) := by
  have noted : layer.nearestNoted best (trail.expand best.id) neighbors =
      .ok (next, trail.pass best.id neighbors) := by
    rw [nearestNoted_eq, passed]
    rfl
  rw [settleNoted]
  simp only [listed]
  split
  · next failed => cases noted.symm.trans failed
  · next ended =>
      cases noted.symm.trans ended
      split
      · rfl
      · rfl

theorem settleNoted_of_settle {best final : Hit} {work : Work}
    (settled : layer.settle best = .ok (final, work)) (trail : Trail) :
    ∃ trail', layer.settleNoted best trail = .ok (final, trail') ∧
      trail'.work = trail.work + work := by
  fun_induction layer.settle best generalizing trail work
  case case4 best neighbors listed _ next passed nearer last further ended
      inductionHypothesis =>
    cases settled
    obtain ⟨trail', noted, work_eq⟩ :=
      inductionHypothesis ended (trail.pass best.id neighbors)
    refine ⟨trail', ?_, ?_⟩
    · rw [settleNoted_of_pass listed passed, if_pos nearer, noted]
    · rw [work_eq, Trail.work_pass, Work.add_assoc]
  case case5 best neighbors listed _ next passed far =>
    obtain ⟨rfl, rfl⟩ := Prod.ext_iff.mp (Except.ok.inj settled)
    refine ⟨trail.pass best.id neighbors, ?_, Trail.work_pass _ _ _⟩
    rw [settleNoted_of_pass listed passed, if_neg far]
  all_goals cases settled

end Layer

def descendNoted (layer : Nat → Layer) (above : Nat) :
    (level : Nat) → Hit → Trail → Except Fault (Hit × Trail)
  | 0, best, trail => .ok (best, trail)
  | level + 1, best, trail =>
      if above < level + 1 then do
        let (settled, trail) ← (layer (level + 1)).settleNoted best trail
        descendNoted layer above level settled trail
      else
        .ok (best, trail)

/-- With the notes in the place of the work it is the descent itself. -/
theorem descendNoted_of_descend {layer : Nat → Layer} {above level : Nat}
    {best final : Hit} {work : Work}
    (descended : descend layer above level best = .ok (final, work))
    (trail : Trail) :
    ∃ trail', descendNoted layer above level best trail =
        .ok (final, trail') ∧ trail'.work = trail.work + work := by
  induction level generalizing best work trail with
  | zero =>
      cases descended
      exact ⟨trail, rfl, (Work.add_zero _).symm⟩
  | succ level inductionHypothesis =>
      rw [descend] at descended
      rw [descendNoted]
      split at descended
      · next higher =>
          obtain ⟨⟨middle, here⟩, settled, descended⟩ :=
            bind_eq_ok_iff.mp descended
          obtain ⟨⟨final', further⟩, below, ended⟩ :=
            bind_eq_ok_iff.mp descended
          cases ended
          obtain ⟨trail', noted, work_eq⟩ :=
            (layer (level + 1)).settleNoted_of_settle settled trail
          obtain ⟨trail'', later, work_eq'⟩ :=
            inductionHypothesis below trail'
          refine ⟨trail'', ?_, ?_⟩
          · simp only [if_pos higher, noted, ok_bind, later]
          · rw [work_eq', work_eq, Work.add_assoc]
      · next low =>
          cases descended
          rw [if_neg low]
          exact ⟨trail, rfl, (Work.add_zero _).symm⟩

end SmallWorld
