import SmallWorld.Proofs.Index.BestEdges
import SmallWorld.Proofs.Selection.Dropping

/-!
# Selecting anew

A full run that is offered one more point keeps what a selection from all of
these points finds.  `Reachable.reselects` says what that is.  On level 0 it is
all of them but one; above, it is the first diverse ones.  The order in which
the run listed its neighbours has no influence.
-/

namespace SmallWorld

namespace Links

variable {links : Links} {level : Nat} {id : PointId} {slots : Array PointId}
  {neighbors : List PointId}

/-- Only a run that exists has a place among the slots. -/
theorem reaches_of_bounds {place : Nat × Nat}
    (bounded : links.bounds id level = .ok place) :
    links.Reaches level id := by
  obtain ⟨own, found, bounded⟩ := bind_eq_ok_iff.mp bounded
  obtain ⟨base, _, bounded⟩ := bind_eq_ok_iff.mp bounded
  obtain ⟨⟨start, length⟩, _, bounded⟩ := bind_eq_ok_iff.mp bounded
  unfold Links.level at found
  split at found
  · next own' listed =>
      cases found
      dsimp only at bounded
      split at bounded
      · next below => exact ⟨own, listed, below⟩
      · cases bounded
  · cases found

/-- For a run that does not exist the slots make no difference. -/
theorem run_eq_of_not_reaches (missing : ¬ links.Reaches level id) :
    { links with slots }.run id level = links.run id level := by
  have same : { links with slots }.bounds id level = links.bounds id level :=
    rfl
  rw [run, run, same]
  cases bounded : links.bounds id level with
  | error fault => rfl
  | ok place => exact absurd (reaches_of_bounds bounded) missing

/-- Slots in which a run can be read have room for it. -/
theorem Laid.room_of_neighbors (laid : links.Laid)
    (reaches : links.Reaches level id)
    (listed : { links with slots }.neighbors id level = .ok neighbors) :
    links.address id level + links.table.runLength level ≤ slots.size := by
  obtain ⟨run, read, _⟩ := bind_eq_ok_iff.mp listed
  have bounds : { links with slots }.bounds id level = .ok
      (links.address id level, links.table.runLength level) :=
    laid.bounds_eq reaches
  rw [Links.run, bounds, ok_bind] at read
  dsimp only at read
  split at read
  · next room => exact room
  · cases read

/-- In any slots with room for a run it can be overwritten. -/
theorem Laid.overwrite_run (laid : links.Laid)
    (reaches : links.Reaches level id)
    (room : links.address id level + links.table.runLength level ≤ slots.size)
    (fits : neighbors.length ≤ links.table.runLength level) :
    ∃ slots', { links with slots }.overwrite id level neighbors =
        .ok { links with slots := slots' } ∧
      { links with slots := slots' }.run id level =
        .ok (padded (links.table.runLength level) neighbors) := by
  have bounds : ∀ slots : Array PointId,
      { links with slots }.bounds id level = .ok
        (links.address id level, links.table.runLength level) :=
    fun _ => laid.bounds_eq reaches
  have length := length_padded fits
  refine ⟨write slots (links.address id level)
    (padded (links.table.runLength level) neighbors), ?_, ?_⟩
  · simp only [overwrite, bounds, ok_bind, Nat.not_lt.mpr fits, if_false,
      room, if_true]
    rfl
  · rw [Links.run, bounds, ok_bind]
    dsimp only
    rw [size_write, if_pos room]
    refine congrArg Except.ok (toList_extract_eq ?_ length ?_)
    · rwa [size_write]
    · intro position within
      rw [getElem?_write (by omega), if_pos (by omega),
        Nat.add_sub_cancel_left]

end Links

namespace Cloud

variable {cloud : Cloud} {owner : PointId} {ids : List PointId}
  {candidates : List Hit} {first : Hit}

namespace IsSound

variable (sound : cloud.IsSound)
include sound

theorem ranks (ownerInside : owner < cloud.size)
    (inside : ∀ id ∈ ids, id < cloud.size) :
    cloud.Ranks owner ids (Distances.ranked cloud.apart owner ids) where
  ids_perm := Distances.ranked_map_id_perm ids
  measured hit member := by
    obtain ⟨listed, marked⟩ := Distances.mem_ranked.mp member
    rw [marked]
    exact sound.distanceBetween_eq ownerInside (inside hit.id listed)
  ordered := Distances.ordered_ranked cloud.apart owner ids

theorem measuresAll (inside : ∀ hit ∈ candidates, hit.id < cloud.size) :
    cloud.MeasuresAll candidates := by
  refine List.pairwise_of_forall_mem_list fun earlier first later second => ?_
  rw [sound.distanceBetween_eq (inside later second) (inside earlier first)]
  rfl

theorem exists_ranked_scan (owner : PointId)
    (inside : ∀ id ∈ ids, id < cloud.size) :
    ∃ scan,
      cloud.scan owner (Distances.ranked cloud.apart owner ids) = .ok scan :=
  exists_scan (sound.measuresAll fun hit member => inside hit.id
    (Distances.id_mem_of_mem_ranked (List.mem_of_mem_filter member)))

end IsSound

theorem Ranks.isBest (ranks : cloud.Ranks owner ids candidates)
    (head : candidates.head? = some first) :
    cloud.IsBest owner (· ∈ ids) first.id := by
  obtain ⟨rest, rfl⟩ := List.head?_eq_some_iff.mp head
  refine ⟨ranks.ids_perm.subset List.mem_cons_self, fun other member => ?_⟩
  obtain ⟨hit, listed, rfl⟩ :=
    List.mem_map.mp (ranks.ids_perm.symm.subset member)
  exact ⟨_, _, ranks.measured first List.mem_cons_self,
    ranks.measured hit listed, Hit.head_le ranks.ordered listed⟩

end Cloud

namespace Index

variable {σ : Type} {index : Index σ} {runs : Runs} {owner incoming : PointId}
  {level : Nat} {before : List PointId} {scan : Scan}

/-- What becomes of a full run when it selects anew, a further point having
come in.  The candidates are its neighbours and this point, and the scan parts
them into diverse and shadowed ones. -/
structure Reselects (index : Index σ) (owner : PointId) (level : Nat)
    (incoming : PointId) (before : List PointId) (candidates : List Hit)
    (scan : Scan) (slots : Array PointId) (after : List PointId) : Prop where
  ranks : index.cloud.Ranks owner (before ++ [incoming]) candidates
  scanned : index.cloud.scan owner candidates = .ok scan
  /-- The run lists other neighbours, and the slots behind them are free. -/
  run_eq : { index.links with slots }.run owner level =
    .ok (Links.padded (index.settings.neighborBound level) after)
  /-- No other run changes. -/
  keeps : ∀ id level', owner ≠ id ∨ level ≠ level' →
    { index.links with slots }.run id level' = index.links.run id level'
  /-- The result would be the same for any slots in which the run has the same
  neighbours, in whatever order it lists them. -/
  order_free : ∀ slots' before',
    { index.links with slots := slots' }.neighbors owner level =
      .ok before' → before'.Perm before → ∃ slots'',
        ({ index.links with slots := slots' }.reselect index.cloud owner level
          incoming).outcome = .ok { index.links with slots := slots'' } ∧
        { index.links with slots := slots'' }.run owner level =
          .ok (Links.padded (index.settings.neighborBound level) after)
  /-- The best of the candidates comes first. -/
  best : ∃ nearest, after.head? = some nearest ∧
    index.cloud.IsBest owner (· ∈ before ++ [incoming]) nearest
  /-- On level 0 one candidate is dropped: the last shadowed one, or the last
  of all if none is shadowed. -/
  ground : level = 0 → after.length = 2 * index.settings.branching ∧
    ∃ dropped,
      Hit.IsLast (if scan.shadowed = [] then candidates else scan.shadowed)
        dropped ∧
      (dropped.id :: after).Perm (before ++ [incoming])
  /-- Above it the first diverse ones are kept. -/
  upper : level ≠ 0 →
    after = (scan.diverse.take index.settings.branching).map Hit.id ∧
      1 ≤ after.length ∧ after.length ≤ index.settings.branching

/-- What a run keeps of the candidates that have been scanned. -/
def kept (index : Index σ) (level : Nat) (scan : Scan) : List PointId :=
  ((scan.pool (level == 0)).take
    (index.settings.neighborBound level)).map Hit.id

theorem length_kept_le (index : Index σ) (level : Nat) (scan : Scan) :
    (index.kept level scan).length ≤ index.settings.neighborBound level := by
  rw [kept, List.length_map]
  exact List.length_take_le _ _

section Kept

variable {candidates : List Hit}
  (ranks : index.cloud.Ranks owner (before ++ [incoming]) candidates)
  (scanned : index.cloud.scan owner candidates = .ok scan)
  (absent : owner ∉ before ++ [incoming])
include ranks scanned absent

theorem head?_kept (room : 0 < index.settings.neighborBound level) :
    ∃ nearest, (index.kept level scan).head? = some nearest ∧
      index.cloud.IsBest owner (· ∈ before ++ [incoming]) nearest := by
  obtain ⟨first, head⟩ : ∃ first, candidates.head? = some first := by
    refine ⟨_, List.head?_eq_some_head (List.ne_nil_of_length_pos ?_)⟩
    rw [ranks.length_eq, List.length_append]
    exact Nat.succ_pos _
  have diverse : scan.diverse.head? = some first :=
    (Cloud.head?_diverse (ranks.ne_owner absent) scanned).trans head
  have pooled : (scan.pool (level == 0)).head? = some first := by
    obtain ⟨rest, found⟩ := List.head?_eq_some_iff.mp diverse
    rw [Scan.pool, found]
    split <;> rfl
  refine ⟨first.id, ?_, ranks.isBest head⟩
  rw [kept, List.head?_map, List.head?_take, if_neg room.ne', pooled]
  rfl

theorem kept_zero (full : before.length = index.settings.neighborBound 0) :
    (index.kept 0 scan).length = 2 * index.settings.branching ∧
    ∃ dropped,
      Hit.IsLast (if scan.shadowed = [] then candidates else scan.shadowed)
        dropped ∧
      (dropped.id :: index.kept 0 scan).Perm (before ++ [incoming]) := by
  have length : candidates.length = index.settings.neighborBound 0 + 1 := by
    rw [ranks.length_eq, List.length_append, full]
    rfl
  obtain ⟨dropped, last, perm⟩ := Cloud.exists_dropped
    (ranks.ne_owner absent) scanned ranks.ordered length
  have ids := (perm.map Hit.id).trans ranks.ids_perm
  refine ⟨?_, dropped, last, ids⟩
  have counted := perm.length_eq
  rw [length, List.length_cons] at counted
  rw [kept, List.length_map]
  exact Nat.succ.inj counted

theorem kept_of_ne_zero (room : 0 < index.settings.neighborBound level)
    (above : level ≠ 0) :
    index.kept level scan =
        (scan.diverse.take index.settings.branching).map Hit.id ∧
      1 ≤ (index.kept level scan).length ∧
      (index.kept level scan).length ≤ index.settings.branching := by
  obtain ⟨nearest, head, _⟩ := head?_kept ranks scanned absent room
  have bound : index.settings.neighborBound level = index.settings.branching :=
    if_neg above
  refine ⟨?_, List.length_pos_of_mem (List.mem_of_head? head), ?_⟩
  · rw [kept, bound, beq_false_of_ne above]
    rfl
  · rw [← bound]
    exact index.length_kept_le level scan

end Kept

section Sound

variable (sound : index.Sound runs) (reaches : index.links.Reaches level owner)
  (inside : ∀ id ∈ before ++ [incoming], id < index.cloud.size)
  (scanned : index.cloud.scan owner (Distances.ranked index.cloud.apart owner
    (before ++ [incoming])) = .ok scan)
include sound reaches inside scanned

/-- What a run keeps depends on which neighbours it lists and on what comes
in. -/
theorem Sound.reselect_slots {slots : Array PointId} {before' : List PointId}
    (listed : { index.links with slots }.neighbors owner level = .ok before')
    (perm : before'.Perm before) :
    ∃ slots', ({ index.links with slots }.reselect index.cloud owner level
        incoming).outcome = .ok { index.links with slots := slots' } ∧
      { index.links with slots := slots' }.run owner level =
        .ok (Links.padded (index.settings.neighborBound level)
          (index.kept level scan)) := by
  have laid := sound.represents.laid
  have fits := index.length_kept_le level scan
  rw [sound.neighborBound_eq] at fits ⊢
  obtain ⟨slots', written, run⟩ := laid.overwrite_run reaches
    (laid.room_of_neighbors reaches listed) fits
  have same : (before' ++ [incoming]).Perm (before ++ [incoming]) :=
    perm.append_right [incoming]
  refine ⟨slots', Links.reselect_outcome listed (laid.capacity_eq reaches)
    (fun id member => sound.cloud.distanceBetween_eq (sound.lt_size reaches)
      (inside id (same.subset member))) ?_ written, run⟩
  rw [Distances.ranked_eq_of_perm index.cloud.apart owner same,
    Cloud.chooseNeighbors_eq_take scanned, kept, sound.neighborBound_eq]

end Sound

/-- Only the run that selects anew changes. -/
theorem Sound.run_reselect_of_ne (sound : index.Sound runs)
    (reaches : index.links.Reaches level owner)
    (incomingReaches : index.links.Reaches level incoming)
    {slots : Array PointId}
    (reselected : (index.links.reselect index.cloud owner level
      incoming).outcome = .ok { index.links with slots })
    {id level' : Nat} (different : owner ≠ id ∨ level ≠ level') :
    { index.links with slots }.run id level' = index.links.run id level' := by
  by_cases reaches' : index.links.Reaches level' id
  · obtain ⟨slots', reselected', represents⟩ := sound.represents.reselect_eq
      sound.proper (fun first second => sound.cloud.distanceBetween_eq
        (sound.lt_size first) (sound.lt_size second)) reaches incomingReaches
    rw [Except.ok.inj (reselected.symm.trans reselected')]
    rw [represents.run_eq reaches', sound.represents.run_eq reaches',
      Runs.set_of_ne _ different]
  · exact Links.run_eq_of_not_reaches reaches'

/-- A full run to which a further point is offered selects anew, and this
changes no other run.  What it lists afterwards depends on which points it
listed, not on their order, and starts with the best of these and the new one.
On level 0 it drops one of them, the last that a scan of all finds shadowed or
the last of all if there is no such point; above it keeps the first diverse
ones. -/
theorem Reachable.reselects [UniformSource σ] (reachable : index.Reachable)
    (listed : index.neighbors? owner level = .ok (some before))
    (full : before.length = index.settings.neighborBound level) {own : Nat}
    (found : index.levelOf? incoming = some own) (below : level ≤ own)
    (other : incoming ≠ owner) (new : incoming ∉ before) :
    ∃ candidates scan slots after,
      (index.links.offer index.cloud owner incoming level).outcome =
        .ok { index.links with slots } ∧
      (index.links.reselect index.cloud owner level incoming).outcome =
        .ok { index.links with slots } ∧
      index.Reselects owner level incoming before candidates scan slots
        after := by
  obtain ⟨runs, sound⟩ := reachable.sound
  have reaches := reaches_of_neighbors? listed
  have incomingReaches : index.links.Reaches level incoming :=
    ⟨own, found, below⟩
  rw [sound.neighbors?_eq reaches] at listed
  cases listed
  have inside : ∀ id ∈ runs owner level ++ [incoming],
      id < index.cloud.size := by
    intro id member
    rcases List.mem_append.mp member with old | isNew
    · exact sound.lt_size (sound.proper.reaches reaches old)
    · exact List.mem_singleton.mp isNew ▸ sound.lt_size incomingReaches
  have absent : owner ∉ runs owner level ++ [incoming] := by
    intro member
    rcases List.mem_append.mp member with old | isNew
    · exact sound.proper.ne reaches old rfl
    · exact other (List.mem_singleton.mp isNew).symm
  obtain ⟨scan, scanned⟩ := sound.cloud.exists_ranked_scan owner inside
  have ranks := sound.cloud.ranks (sound.lt_size reaches) inside
  obtain ⟨slots, reselected, run⟩ := sound.reselect_slots reaches inside
    scanned (sound.represents.neighbors_eq reaches) (List.Perm.refl _)
  have offered : (index.links.offer index.cloud owner incoming level).outcome =
      (index.links.reselect index.cloud owner level incoming).outcome :=
    sound.represents.offer_of_full reaches other.symm new
      (full.trans (sound.neighborBound_eq level)).ge
  have room : 0 < index.settings.neighborBound level :=
    (sound.runLength_pos level).trans_eq (sound.neighborBound_eq level).symm
  have best := head?_kept ranks scanned absent room
  exact ⟨_, scan, slots, _, offered.trans reselected, reselected, {
    ranks
    scanned
    run_eq := run
    keeps := fun id level' different =>
      sound.run_reselect_of_ne reaches incomingReaches reselected different
    order_free := fun slots' before' listed perm =>
      sound.reselect_slots reaches inside scanned listed perm
    best
    ground := by
      rintro rfl
      exact kept_zero ranks scanned absent full
    upper := fun above =>
      kept_of_ne_zero ranks scanned absent room above }⟩

/-- The second point of the line has dropped the first one, which is offered
to it once more. -/
theorem line_reselects : ∃ line : Index (Cycle Float), line.Reachable ∧
    line.neighbors? 1 0 = .ok (some [4, 5, 2, 3]) ∧
    [4, 5, 2, 3].length = line.settings.neighborBound 0 ∧
    line.levelOf? 0 = some 1 ∧
    ∃ candidates scan slots after,
      (line.links.offer line.cloud 1 0 0).outcome =
        .ok { line.links with slots } ∧
      (line.links.reselect line.cloud 1 0 0).outcome =
        .ok { line.links with slots } ∧
      line.Reselects 1 0 0 [4, 5, 2, 3] candidates scan slots after := by
  obtain ⟨line, isLine⟩ := exists_isLine
  have inside : 1 < line.size := by
    rw [isLine.size_eq]
    decide
  have listed : line.neighbors? 1 0 = .ok (some [4, 5, 2, 3]) :=
    (isLine.sound.neighbors?_eq (isLine.sound.reaches_zero.mpr inside)).trans
      (by decide +kernel)
  have settings : line.outline.settings = lineOutline.settings :=
    congrArg Index.settings isLine.outline_eq
  have full : [4, 5, 2, 3].length = line.settings.neighborBound 0 := by
    change _ = line.outline.settings.neighborBound 0
    rw [settings]
    decide +kernel
  have found : line.levelOf? 0 = some 1 := by
    rw [levelOf?, isLine.levels_eq]
    rfl
  exact ⟨line, isLine.reachable, listed, full, found,
    isLine.reachable.reselects listed full found (Nat.zero_le 1) (by decide)
      (by decide)⟩

end Index

end SmallWorld
