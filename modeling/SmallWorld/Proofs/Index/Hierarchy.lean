import SmallWorld.Proofs.Index.Batch
import SmallWorld.Proofs.Index.Safety

/-!
# The hierarchy of an index

Which levels the points of an index are on depends on the source and on the
number of points, and on nothing else: every point takes one draw, and nothing
but a point takes one (`Draws`).  With the levels the blocks of slots, the
entry point and the top level are given.  So indexes that are built alike and
hold as many points have the same hierarchy (`sameHierarchy_of_size_eq`),
whatever their vectors, and however they have been searched in between.
-/

namespace SmallWorld

theorem LevelTable.draws_succ {σ : Type} [UniformSource σ]
    (table : LevelTable) (count : Nat) (source : σ) :
    table.draws (count + 1) source =
      ((table.draws count source).1 ++
          [(table.draw (table.draws count source).2).1],
        (table.draw (table.draws count source).2).2) := by
  induction count generalizing source with
  | zero => rfl
  | succ count inductionHypothesis =>
      have unfolded : ∀ count, table.draws (count + 1) source =
          ((table.draw source).1 :: (table.draws count (table.draw source).2).1,
            (table.draws count (table.draw source).2).2) := fun _ => rfl
      rw [unfolded (count + 1), inductionHypothesis, unfolded count,
        List.cons_append]

theorem LevelTable.Tabulates.eq {first second : LevelTable}
    {probabilityOf : Nat → Float} (tabulates : first.Tabulates probabilityOf)
    (tabulates' : second.Tabulates probabilityOf)
    (branching : first.branching = second.branching) : first = second := by
  have probabilities := tabulates.trans tabulates'.symm
  cases first
  cases second
  cases branching
  cases probabilities
  rfl

namespace Links

variable {first second : Links}

/-- The levels determine the blocks. -/
theorem Laid.offsets_eq (laid : first.Laid) (laid' : second.Laid)
    (table : first.table = second.table)
    (levels : first.levels = second.levels) :
    first.offsets = second.offsets ∧
      first.slots.size = second.slots.size := by
  have starts := blockStart_congr table levels
  have sizes : first.size = second.size := congrArg Array.size levels
  constructor
  · apply Array.ext_getElem?
    intro id
    rcases Nat.lt_or_ge first.size id with outside | inside
    · rw [Array.getElem?_eq_none (laid.offsets_size ▸ outside),
        Array.getElem?_eq_none (laid'.offsets_size ▸ sizes ▸ outside)]
    · rw [laid.offset_eq id inside, laid'.offset_eq id (sizes ▸ inside),
        starts]
  · rw [laid.slots_size, laid'.slots_size, starts, sizes]

end Links

namespace Index

variable {σ : Type} {index next start start' final final' : Index σ}
  {runs : Runs}

/-- A read that is refused or succeeds leaves the index as it is. -/
theorem eq_of_settleCall {α : Type} {outcome : Except Failure α}
    (settled : index.settleCall (outcome.map fun _ => index) = .ok next) :
    next = index := by
  cases outcome with
  | ok _ =>
      cases settled
      rfl
  | error failure =>
      cases failure with
      | refused refusal =>
          cases settled
          rfl
      | faulted fault => cases settled

theorem eq_of_map {α : Type} {outcome : Except Fault α}
    (mapped : outcome.map (fun _ => index) = .ok next) : next = index := by
  cases outcome with
  | ok _ =>
      cases mapped
      rfl
  | error fault => cases mapped

variable [UniformSource σ]

/-- Only calls that add points change an index. -/
theorem serve_eq_self_or_apply {request : Request}
    (served : index.serve request = .ok next) :
    next = index ∨ ∃ call, index.apply call = .ok next := by
  cases request with
  | add call => exact Or.inr ⟨call, served⟩
  | search query count => exact Or.inl (eq_of_settleCall served)
  | searchWidth query count width => exact Or.inl (eq_of_settleCall served)
  | searchWithWork query count width =>
      exact Or.inl (eq_of_settleCall served)
  | audit => exact Or.inl (eq_of_map served)
  | connectivity level => exact Or.inl (eq_of_map served)

/-- Without its reads a session is a run of calls. -/
theorem exists_run_of_serveAll {requests : List Request}
    (served : index.serveAll requests = .ok final) :
    ∃ calls, index.run calls = .ok final := by
  induction requests generalizing index with
  | nil => exact ⟨[], served⟩
  | cons request rest inductionHypothesis =>
      rw [serveAll, bind_eq_ok_iff] at served
      obtain ⟨next, first, later⟩ := served
      obtain ⟨calls, ran⟩ := inductionHypothesis later
      rcases serve_eq_self_or_apply first with rfl | ⟨call, applied⟩
      · exact ⟨calls, ran⟩
      · refine ⟨call :: calls, ?_⟩
        rw [run, applied, ok_bind, ran]

def EntryFirst (index : Index σ) : Prop :=
  ∀ {entryPoint id : PointId}, index.entryPoint = some entryPoint →
    index.links.levels[id]? = some index.topLevel → entryPoint ≤ id

/-- A new point takes the entry over only from points that are below it. -/
theorem EntryFirst.grown {vector : Coordinates} (entryFirst : index.EntryFirst)
    (sound : index.Sound runs) (gains : index.Gains vector next) :
    next.EntryFirst := by
  intro entryPoint id entry found
  rw [gains.entryPoint_eq] at entry
  rw [gains.levels_eq, gains.topLevel_eq, Array.getElem?_push] at found
  cases former : index.entryPoint with
  | none =>
      rw [former] at entry
      have none : index.size = 0 :=
        sound.size_eq.trans (sound.links_empty former)
      cases entry
      exact none ▸ Nat.zero_le id
  | some old =>
      obtain ⟨entryLevel, topmost⟩ := sound.entry_onTop former
      have inside : old < index.links.levels.size :=
        (Array.getElem?_eq_some_iff.mp entryLevel).1
      simp only [former, reduceCtorEq, false_or, if_false] at entry found
      by_cases higher : index.topLevel <
          (index.links.table.draw index.source).1
      · rw [if_pos higher] at entry
        rw [Nat.max_eq_right higher.le] at found
        cases entry
        by_contra before
        have earlier : id < index.links.levels.size :=
          (not_le.mp before).trans_eq sound.size_eq
        rw [if_neg earlier.ne] at found
        exact higher.not_ge (topmost _ (Array.mem_of_getElem? found))
      · rw [if_neg higher] at entry
        rw [Nat.max_eq_left (not_lt.mp higher)] at found
        split at found
        · next new =>
            cases entry
            exact new ▸ inside.le
        · exact entryFirst (former.trans entry) found

/-- The points of the index are on the levels that the source of another one
gives to as many points, and the entry point is the first one on top. -/
structure Draws (start index : Index σ) : Prop where
  table_eq : index.links.table = start.links.table
  draws_eq : start.links.table.draws index.size start.source =
    (index.links.levels.toList, index.source)
  topLevel_of_none : index.entryPoint = none → index.topLevel = 0
  entryFirst : index.EntryFirst

theorem IsFresh.draws (fresh : start.IsFresh) : start.Draws start where
  table_eq := rfl
  draws_eq := by
    rw [size, Cloud.size, fresh.cloud_eq, fresh.links_eq]
    rfl
  topLevel_of_none := fun _ => fresh.topLevel_eq
  entryFirst := by
    intro entryPoint id entry
    rw [fresh.entryPoint_eq] at entry
    cases entry

theorem preserved_draws (start : Index σ) :
    PreservedByPlacing fun index _ => start.Draws index := by
  intro index runs vector next sound draws _ _ gains _
  refine ⟨gains.table_eq.trans draws.table_eq, ?_, ?_,
    EntryFirst.grown draws.entryFirst sound gains⟩
  · rw [gains.size_eq, LevelTable.draws_succ, draws.draws_eq, gains.levels_eq,
      gains.source_eq, draws.table_eq, Array.toList_push]
  · intro noEntry
    have entry := gains.entryPoint_eq
    rw [noEntry] at entry
    split at entry
    · cases entry
    · next kept => exact absurd (Or.inl entry.symm) kept

/-- Two indexes have the same levels, blocks and entry point, and the levels
of further points will be the same. -/
structure SameHierarchy (first second : Index σ) : Prop where
  levels_eq : first.links.levels = second.links.levels
  offsets_eq : first.links.offsets = second.links.offsets
  slots_size_eq : first.links.slots.size = second.links.slots.size
  entryPoint_eq : first.entryPoint = second.entryPoint
  topLevel_eq : first.topLevel = second.topLevel
  source_eq : first.source = second.source

namespace Draws

variable {index' : Index σ} {runs' : Runs}

theorem entry_isLeast (draws : start.Draws index) (sound : index.Sound runs)
    (nonempty : 0 < index.size) :
    ∃ entryPoint, index.entryPoint = some entryPoint ∧
      IsLeast {id | ∃ own, index.links.levels[id]? = some own ∧
        ∀ other ∈ index.links.levels, other ≤ own} entryPoint := by
  obtain ⟨entryPoint, entry⟩ := sound.exists_entry nonempty
  obtain ⟨entryLevel, topmost⟩ := sound.entry_onTop entry
  refine ⟨entryPoint, entry, ⟨index.topLevel, entryLevel, topmost⟩, ?_⟩
  rintro id ⟨own, found, highest⟩
  have same : own = index.topLevel := Nat.le_antisymm
    (topmost own (Array.mem_of_getElem? found))
    (highest _ (Array.mem_of_getElem? entryLevel))
  exact draws.entryFirst entry (same ▸ found)

/-- Points that are drawn from the same source have the same hierarchy. -/
theorem sameHierarchy (draws : start.Draws index)
    (draws' : start'.Draws index') (sound : index.Sound runs)
    (sound' : index'.Sound runs')
    (table : start.links.table = start'.links.table)
    (source : start.source = start'.source) (size : index.size = index'.size) :
    index.SameHierarchy index' := by
  have drawn : (index.links.levels.toList, index.source) =
      (index'.links.levels.toList, index'.source) := by
    rw [← draws.draws_eq, ← draws'.draws_eq, table, source, size]
  have levels : index.links.levels = index'.links.levels :=
    Array.toList_inj.mp (congrArg Prod.fst drawn)
  have tables : index.links.table = index'.links.table :=
    draws.table_eq.trans (table.trans draws'.table_eq.symm)
  obtain ⟨offsets, slots⟩ := sound.represents.laid.offsets_eq
    sound'.represents.laid tables levels
  suffices entries : index.entryPoint = index'.entryPoint ∧
      index.topLevel = index'.topLevel from
    ⟨levels, offsets, slots, entries.1, entries.2, congrArg Prod.snd drawn⟩
  rcases Nat.eq_zero_or_pos index.size with none | nonempty
  · have entry := sound.wellFormed.entry_none_iff.mpr none
    have entry' := sound'.wellFormed.entry_none_iff.mpr (size ▸ none)
    exact ⟨entry.trans entry'.symm, (draws.topLevel_of_none entry).trans
      (draws'.topLevel_of_none entry').symm⟩
  · obtain ⟨entryPoint, entry, least⟩ := draws.entry_isLeast sound nonempty
    obtain ⟨entryPoint', entry', least'⟩ :=
      draws'.entry_isLeast sound' (size ▸ nonempty)
    rw [← levels] at least'
    have same := least.unique least'
    refine ⟨entry.trans (same ▸ entry'.symm), Option.some.inj ?_⟩
    rw [← (sound.entry_onTop entry).1, ← (sound'.entry_onTop entry').1, same,
      levels]

end Draws

/-- A session leads to a sound index whose levels are drawn from the source
of the index that it starts with. -/
theorem IsFresh.draws_of_serveAll (fresh : start.IsFresh)
    {requests : List Request} (served : start.serveAll requests = .ok final) :
    ∃ runs, final.Sound runs ∧ start.Draws final := by
  obtain ⟨calls, ran⟩ := exists_run_of_serveAll served
  exact (run_eq (preserved_draws start) (fresh.sound fun _ _ => [])
    fresh.draws calls).1 final ran

/-- Indexes that are created with the same branching and the same source have
the same hierarchy whenever they hold as many points: whatever their
dimensions and widths are, and whatever is inserted, refused and searched in
between.  The levels are the first draws from the source, and the entry point
is the first point on the highest one. -/
theorem sameHierarchy_of_size_eq (fresh : start.IsFresh)
    (fresh' : start'.IsFresh) (probabilityOf : Nat → Nat → Float)
    (tabulates : start.links.table.Tabulates
      (probabilityOf start.settings.branching))
    (tabulates' : start'.links.table.Tabulates
      (probabilityOf start'.settings.branching))
    (branching : start.settings.branching = start'.settings.branching)
    (source : start.source = start'.source)
    {requests requests' : List Request}
    (served : start.serveAll requests = .ok final)
    (served' : start'.serveAll requests' = .ok final')
    (size : final.size = final'.size) :
    final.SameHierarchy final' ∧
      start.links.table.draws final.size start.source =
        (final.links.levels.toList, final.source) ∧
      (0 < final.size →
        ∃ entryPoint, final.entryPoint = some entryPoint ∧
          IsLeast {id | ∃ own, final.links.levels[id]? = some own ∧
            ∀ other ∈ final.links.levels, other ≤ own} entryPoint) := by
  obtain ⟨runs, sound, draws⟩ := fresh.draws_of_serveAll served
  obtain ⟨runs', sound', draws'⟩ := fresh'.draws_of_serveAll served'
  have table : start.links.table = start'.links.table := by
    rw [← branching] at tabulates'
    refine tabulates.eq tabulates' ?_
    rw [fresh.branching_eq, fresh'.branching_eq, branching]
  exact ⟨draws.sameHierarchy draws' sound sound' table source size,
    draws.draws_eq, draws.entry_isLeast sound⟩

/-- A fresh index for points of a plane, with the levels of the line. -/
def planeStart : Index (Cycle Float) :=
  { lineStart with
    settings :=
      { branching := 2, constructionWidth := 7, searchWidth := 3, seed := 9 }
    cloud := { dimension := 2, vectors := #[] } }

def planePoints : List Coordinates :=
  [[Scalar.zero, Scalar.one], [Scalar.one, Scalar.zero],
    [Scalar.one, Scalar.one], [Scalar.zero, Scalar.zero],
    [Scalar.zero, Scalar.zero], [.ofBits 0x41000000, Scalar.one]]

theorem planeStart_isFresh : planeStart.IsFresh where
  dimension_pos := by decide
  machine := by decide
  valid := by unfold Settings.Valid; decide
  branching_eq := rfl
  cloud_eq := rfl
  links_eq := rfl
  entryPoint_eq := rfl
  topLevel_eq := rfl

/-- The line and the plane have the same hierarchy, although some calls on the
plane are refused and its graph is looked at. -/
theorem line_sameHierarchy_plane : ∃ line plane : Index (Cycle Float),
    lineStart.IsFresh ∧ planeStart.IsFresh ∧
    lineStart.serveAll [.add (.insertAll linePoints)] = .ok line ∧
    planeStart.serveAll
      [.search [Scalar.zero] 1, .add (.insert []),
        .add (.insertAll planePoints), .audit] = .ok plane ∧
    line.size = 6 ∧ line.size = plane.size ∧ line.SameHierarchy plane := by
  obtain ⟨line, _, lineFilled, _, _, lineSize, _⟩ :=
    (lineStart_isFresh.sound fun _ _ => []).insertAll_of_admits (by decide)
      (show lineStart.Admits linePoints from
        ⟨by unfold Fits; decide +kernel, by decide⟩)
  obtain ⟨plane, _, planeFilled, _, _, planeSize, _, sound⟩ :=
    (planeStart_isFresh.sound fun _ _ => []).insertAll_of_admits (by decide)
      (show planeStart.Admits planePoints from
        ⟨by unfold Fits; decide +kernel, by decide⟩)
  have lineServed : lineStart.serveAll [.add (.insertAll linePoints)] =
      .ok line := by
    simp only [serveAll, serve, apply, lineFilled]
    rfl
  have planeServed : planeStart.serveAll
      [.search [Scalar.zero] 1, .add (.insert []),
        .add (.insertAll planePoints), .audit] = .ok plane := by
    have searched : planeStart.serve (.search [Scalar.zero] 1) =
        .ok planeStart := rfl
    have refused : planeStart.serve (.add (.insert [])) = .ok planeStart := rfl
    have filled : planeStart.serve (.add (.insertAll planePoints)) =
        .ok plane := by
      simp only [serve, apply, planeFilled]
      rfl
    have audited : plane.serve .audit = .ok plane := by
      rw [serve, sound.audit_eq]
      rfl
    simp only [serveAll, searched, refused, filled, audited, ok_bind]
  have size : line.size = plane.size := lineSize.trans planeSize.symm
  exact ⟨line, plane, lineStart_isFresh, planeStart_isFresh, lineServed,
    planeServed, lineSize, size,
    (sameHierarchy_of_size_eq lineStart_isFresh planeStart_isFresh
      (fun _ => lineProbability) lineStart_tabulates lineStart_tabulates rfl
      rfl lineServed planeServed size).1⟩

end Index

end SmallWorld
