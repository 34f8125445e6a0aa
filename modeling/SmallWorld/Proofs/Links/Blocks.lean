import SmallWorld.Proofs.Links.Auditing

/-!
# What an audit finds in the blocks

A block is looked at as a whole first.  If it has not the number of slots that
the level of its point calls for, that is all that its audit finds, and else
the audit finds what is wrong in its runs (`Links.BlockReported`).  The blocks
are told apart by the numbers of their points, so what is found for one of
them is found once in all.  The offsets have to ascend within the slots, which
themselves may hold anything (`Links.Framed`).
-/

namespace SmallWorld

namespace Violation

def block? : Violation → Option PointId
  | .blockSize id _ _ => some id
  | .gap id _ => some id
  | .selfLoop id _ => some id
  | .outOfRange id _ _ => some id
  | .duplicate id _ _ => some id
  | .belowLevel id _ _ => some id
  | .entryLevel _ _ _ => none

theorem block?_eq_some_iff {violation : Violation} {id : PointId} :
    violation.block? = some id ↔
      (∃ needed actual, violation = .blockSize id needed actual) ∨
        ∃ level, violation.run? = some (id, level) := by
  cases violation <;> simp [block?, run?]

section Keys

variable {α κ : Type} {key : Violation → Option κ} {name : α → κ}
  {found : α → List Violation} {values : List α} {violation : Violation}
  (keyed : ∀ value ∈ values, ∀ violation ∈ found value,
    key violation = some (name value))
include keyed

theorem exists_of_mem_flatten_map
    (present : violation ∈ (values.map found).flatten) :
    ∃ value ∈ values, key violation = some (name value) := by
  obtain ⟨_, listed, inList⟩ := List.mem_flatten.mp present
  obtain ⟨value, member, rfl⟩ := List.mem_map.mp listed
  exact ⟨value, member, keyed value member violation inList⟩

/-- If what is found for different values is told apart by a key, then a
violation with the key of a value is found for that value only. -/
theorem count_flatten_map (distinct : (values.map name).Nodup) {value : α}
    (member : value ∈ values) (here : key violation = some (name value)) :
    (values.map found).flatten.count violation =
      (found value).count violation := by
  obtain ⟨before, after, rfl⟩ := List.append_of_mem member
  have moved : (name value :: (before ++ after).map name).Nodup := by
    rw [← List.map_cons]
    exact (List.perm_middle.map name).nodup_iff.mp distinct
  have nothing : ∀ others : List α,
      (∀ other ∈ others, other ∈ before ++ after) →
      (others.map found).flatten.count violation = 0 := by
    refine fun others among => List.count_eq_zero.mpr fun present => ?_
    obtain ⟨other, otherMember, there⟩ := exists_of_mem_flatten_map
      (fun other otherMember => keyed other (List.perm_middle.mem_iff.mpr
        (List.mem_cons_of_mem _ (among other otherMember)))) present
    have same := Option.some.inj (here.symm.trans there)
    exact (List.nodup_cons.mp moved).1
      (same ▸ List.mem_map_of_mem (among other otherMember))
  rw [List.map_append, List.map_cons, List.flatten_append, List.flatten_cons,
    List.count_append, List.count_append,
    nothing before fun _ => List.mem_append_left _,
    nothing after fun _ => List.mem_append_right _, Nat.zero_add, Nat.add_zero]

end Keys

end Violation

namespace Links

/-- The levels are listed, and the offsets ascend to the number of slots. -/
structure Framed (links : Links) : Prop where
  listed : ∀ own ∈ links.levels, own < links.table.count
  offsets_size : links.offsets.size = links.size + 1
  ascending : links.offsets.toList.Pairwise (· ≤ ·)
  last : links.offsets[links.size]? = some links.slots.size

instance (links : Links) : Decidable links.Framed :=
  decidable_of_iff
    ((∀ own ∈ links.levels, own < links.table.count) ∧
      links.offsets.size = links.size + 1 ∧
      links.offsets.toList.Pairwise (· ≤ ·) ∧
      links.offsets[links.size]? = some links.slots.size)
    ⟨fun ⟨listed, size, ascending, last⟩ => ⟨listed, size, ascending, last⟩,
      fun framed => ⟨framed.listed, framed.offsets_size, framed.ascending,
        framed.last⟩⟩

/-- The number of slots that the level of a point calls for, and the number
of slots of its block. -/
def blockSizes? (links : Links) (id : PointId) : Option (Nat × Nat) := do
  let own ← links.levels[id]?
  let start ← links.offsets[id]?
  let stop ← links.offsets[id + 1]?
  pure (links.table.runStart (own + 1), stop - start)

def Sized (links : Links) (id : PointId) : Prop :=
  ∃ size, links.blockSizes? id = some (size, size)

/-- A block of the right size with tidy runs. -/
def Orderly (links : Links) (id : PointId) : Prop :=
  links.Sized id ∧ ∀ level, links.Reaches level id →
    ∃ run, links.run id level = .ok run ∧ links.Tidy id level run

/-- Violations report a block: its size if that is wrong, and else what is
wrong in its runs. -/
structure BlockReported (links : Links) (id : PointId)
    (violations : List Violation) : Prop where
  size : ∀ needed actual,
    violations.count (.blockSize id needed actual) =
      if links.blockSizes? id = some (needed, actual) ∧ actual ≠ needed then
        1
      else
        0
  run : ∀ {level}, links.Reaches level id → links.Sized id →
    ∃ run, links.run id level = .ok run ∧
      links.RunReported id level run violations
  examined : ∀ violation ∈ violations, ∀ level,
    violation.run? = some (id, level) →
      links.Reaches level id ∧ links.Sized id

variable {links : Links} {id : PointId} {level own : Nat}
  {first second violations : List Violation}

theorem RunReported.congr {run : List PointId}
    (same : ∀ violation : Violation, violation.run? = some (id, level) →
      second.count violation = first.count violation)
    (reported : links.RunReported id level run first) :
    links.RunReported id level run second where
  gap := (same _ rfl).trans reported.gap
  selfLoop := (same _ rfl).trans reported.selfLoop
  outOfRange neighbor := (same _ rfl).trans (reported.outOfRange neighbor)
  belowLevel neighbor := (same _ rfl).trans (reported.belowLevel neighbor)
  duplicate neighbor := (same _ rfl).trans (reported.duplicate neighbor)

theorem BlockReported.congr
    (same : ∀ violation : Violation, violation.block? = some id →
      second.count violation = first.count violation)
    (reported : links.BlockReported id first) :
    links.BlockReported id second where
  size needed actual := (same _ rfl).trans (reported.size needed actual)
  run reaches sized := by
    obtain ⟨run, read, runReported⟩ := reported.run reaches sized
    exact ⟨run, read, runReported.congr fun violation here =>
      same violation (Violation.block?_eq_some_iff.mpr (.inr ⟨_, here⟩))⟩
  examined violation found level here := by
    have inBlock := Violation.block?_eq_some_iff.mpr (.inr ⟨level, here⟩)
    have counted := List.count_pos_iff.mpr found
    rw [same violation inBlock] at counted
    exact reported.examined violation (List.count_pos_iff.mp counted) level
      here

theorem blockSizes?_eq {start stop : Nat}
    (found : links.levels[id]? = some own)
    (startFound : links.offsets[id]? = some start)
    (stopFound : links.offsets[id + 1]? = some stop) :
    links.blockSizes? id =
      some (links.table.runStart (own + 1), stop - start) := by
  simp [blockSizes?, found, startFound, stopFound]

theorem lt_size_of_blockSizes? {sizes : Nat × Nat}
    (found : links.blockSizes? id = some sizes) : id < links.size := by
  by_contra outside
  have missing : links.levels[id]? = none :=
    Array.getElem?_eq_none (Nat.not_lt.mp outside)
  simp [blockSizes?, missing] at found

/-- There is nothing to report where there is no point. -/
theorem blockReported_nil (outside : links.size ≤ id) :
    links.BlockReported id [] where
  size needed actual := by
    refine (if_neg fun sizes => ?_).symm
    exact Nat.not_lt.mpr outside (lt_size_of_blockSizes? sizes.1)
  run reaches _ := absurd reaches.lt_size (Nat.not_lt.mpr outside)
  examined _ found := absurd found List.not_mem_nil

/-- What is reported about a block is reported about a point. -/
theorem BlockReported.lt_size (reported : links.BlockReported id violations)
    {violation : Violation} (found : violation ∈ violations)
    (here : violation.block? = some id) : id < links.size := by
  rcases Violation.block?_eq_some_iff.mp here with
    ⟨needed, actual, rfl⟩ | ⟨level, inRun⟩
  · have counted := List.count_pos_iff.mpr found
    rw [reported.size] at counted
    exact lt_size_of_blockSizes? (ite_ne_right_iff.mp counted.ne').1.1
  · exact (reported.examined violation found level inRun).1.lt_size

/-- The audit finds nothing exactly in an orderly block. -/
theorem BlockReported.clean_iff (reported : links.BlockReported id violations)
    {needed actual : Nat}
    (sizes : links.blockSizes? id = some (needed, actual)) :
    (∀ violation ∈ violations, violation.block? ≠ some id) ↔
      links.Orderly id := by
  constructor
  · intro clean
    have sized : links.Sized id := by
      have counted := (reported.size needed actual).symm.trans
        (List.count_eq_zero.mpr fun found => clean _ found rfl)
      have right : actual = needed := by
        by_contra wrong
        rw [if_pos ⟨sizes, wrong⟩] at counted
        exact Nat.one_ne_zero counted
      exact ⟨needed, right ▸ sizes⟩
    refine ⟨sized, fun level reaches => ?_⟩
    obtain ⟨run, read, runReported⟩ := reported.run reaches sized
    refine ⟨run, read, runReported.clean_iff.mp fun violation found here => ?_⟩
    exact clean violation found
      (Violation.block?_eq_some_iff.mpr (.inr ⟨level, here⟩))
  · rintro ⟨⟨size, sized⟩, tidy⟩ violation found here
    rcases Violation.block?_eq_some_iff.mp here with
      ⟨needed', actual', rfl⟩ | ⟨level, inRun⟩
    · refine List.count_eq_zero.mp
        ((reported.size needed' actual').trans (if_neg ?_)) found
      rintro ⟨sizes', wrong⟩
      cases sized.symm.trans sizes'
      exact wrong rfl
    · obtain ⟨reaches, sized⟩ :=
        reported.examined violation found level inRun
      obtain ⟨run, read, runTidy⟩ := tidy level reaches
      obtain ⟨run', read', runReported⟩ := reported.run reaches sized
      cases read.symm.trans read'
      exact runReported.clean_iff.mpr runTidy violation found inRun

namespace Framed

theorem offset_le_offset (framed : links.Framed)
    {first second start stop : Nat} (before : first ≤ second)
    (startFound : links.offsets[first]? = some start)
    (stopFound : links.offsets[second]? = some stop) : start ≤ stop := by
  rcases before.lt_or_eq with before | rfl
  · obtain ⟨inside, rfl⟩ := Array.getElem?_eq_some_iff.mp startFound
    obtain ⟨inside', rfl⟩ := Array.getElem?_eq_some_iff.mp stopFound
    exact List.pairwise_iff_getElem.mp framed.ascending first second inside
      inside' before
  · exact (Option.some.inj (startFound.symm.trans stopFound)).le

theorem block (framed : links.Framed) (inside : id < links.size) :
    ∃ start stop, links.offsets[id]? = some start ∧
      links.offsets[id + 1]? = some stop ∧ start ≤ stop ∧
      stop ≤ links.slots.size := by
  have bound : id + 1 < links.offsets.size :=
    framed.offsets_size ▸ Nat.succ_lt_succ inside
  have first := Array.getElem?_eq_getElem (Nat.lt_of_succ_lt bound)
  have next := Array.getElem?_eq_getElem bound
  exact ⟨_, _, first, next,
    framed.offset_le_offset (Nat.le_succ id) first next,
    framed.offset_le_offset inside next framed.last⟩

theorem exists_blockSizes? (framed : links.Framed) (inside : id < links.size) :
    ∃ needed actual, links.blockSizes? id = some (needed, actual) := by
  obtain ⟨start, stop, startFound, stopFound, _⟩ := framed.block inside
  exact ⟨_, _, blockSizes?_eq (Array.getElem?_eq_getElem inside) startFound
    stopFound⟩

/-- A run of a block of the right size can be read. -/
theorem exists_run (framed : links.Framed) (reaches : links.Reaches level id)
    (sized : links.Sized id) : ∃ run, links.run id level = .ok run := by
  obtain ⟨start, stop, startFound, stopFound, ordered, within⟩ :=
    framed.block reaches.lt_size
  obtain ⟨own, found, above⟩ := reaches
  obtain ⟨size, sizes⟩ := sized
  have listed : level < links.table.count := above.trans_lt
    (framed.listed own (Array.mem_of_getElem? found))
  obtain ⟨needed_eq, actual_eq⟩ := Prod.mk.inj (Option.some.inj
    ((blockSizes?_eq found startFound stopFound).symm.trans sizes))
  have fits : start + links.table.runStart level +
      links.table.runLength level ≤ links.slots.size := by
    have := links.table.runStart_add_runLength_le
      (show level < own + 1 from Nat.lt_succ_of_le above)
    omega
  refine ⟨(links.slots.extract (start + links.table.runStart level)
    (start + links.table.runStart level +
      links.table.runLength level)).toList, ?_⟩
  simp only [run, bounds, Links.level, offset, found, startFound,
    LevelTable.run, listed, above, if_true, ok_bind, pure, Except.pure, fits]

/-- The sizes of a block decide whether its runs are looked at. -/
theorem auditBlock_open (framed : links.Framed)
    (found : links.levels[id]? = some own) :
    ∃ needed actual, links.blockSizes? id = some (needed, actual) ∧
      links.auditBlock id own =
        if actual = needed then do
          let violations ←
            (List.range (own + 1)).mapM fun level => links.auditRun id level
          pure violations.flatten
        else
          pure [.blockSize id needed actual] := by
  obtain ⟨start, stop, startFound, stopFound, ordered, _⟩ :=
    framed.block (Array.getElem?_eq_some_iff.mp found).1
  have listed := framed.listed own (Array.mem_of_getElem? found)
  refine ⟨_, _, blockSizes?_eq found startFound stopFound, ?_⟩
  simp only [auditBlock, offset, startFound, stopFound,
    LevelTable.blockLength, listed, if_true, ok_bind, Nat.not_lt.mpr ordered,
    if_false]

/-- The audits of all runs of a block of the right size report it. -/
theorem auditRuns_eq (framed : links.Framed)
    (found : links.levels[id]? = some own) (sized : links.Sized id) :
    ∃ lists, (List.range (own + 1)).mapM
        (fun level => links.auditRun id level) = .ok lists ∧
      links.BlockReported id lists.flatten ∧
      ∀ violation ∈ lists.flatten, violation.block? = some id := by
  have reaches : ∀ level ∈ List.range (own + 1), links.Reaches level id :=
    fun level member =>
      ⟨own, found, Nat.lt_succ_iff.mp (List.mem_range.mp member)⟩
  choose! runs read using fun level member =>
    framed.exists_run (reaches level member) sized
  choose! lists audited runReported inRun using fun level member =>
    auditRun_eq (reaches level member) (read level member)
  have examined : ∀ violation ∈ ((List.range (own + 1)).map lists).flatten,
      ∃ level ∈ List.range (own + 1),
        violation.run? = some (id, level) :=
    fun _ present => Violation.exists_of_mem_flatten_map inRun present
  refine ⟨_, mapM_eq_ok audited, ⟨fun needed actual => ?_,
    fun {level} reached _ => ?_, fun violation present level here => ?_⟩,
    fun violation present => ?_⟩
  · have absent : Violation.blockSize id needed actual ∉
        ((List.range (own + 1)).map lists).flatten := by
      intro present
      obtain ⟨level, _, inRun⟩ := examined _ present
      cases inRun
    obtain ⟨size, sizes⟩ := sized
    rw [List.count_eq_zero.mpr absent, if_neg]
    rintro ⟨sizes', wrong⟩
    cases sizes.symm.trans sizes'
    exact wrong rfl
  · have member : level ∈ List.range (own + 1) := by
      obtain ⟨_, found', above⟩ := reached
      cases found.symm.trans found'
      exact List.mem_range.mpr (Nat.lt_succ_of_le above)
    have distinct : ((List.range (own + 1)).map (Prod.mk id)).Nodup :=
      List.nodup_range.map fun _ _ same => (Prod.mk.inj same).2
    exact ⟨runs level, read level member,
      (runReported level member).congr fun violation here =>
        Violation.count_flatten_map inRun distinct member here⟩
  · obtain ⟨_, member, inRun⟩ := examined violation present
    cases here.symm.trans inRun
    exact ⟨reaches level member, sized⟩
  · obtain ⟨level, _, inRun⟩ := examined violation present
    exact Violation.block?_eq_some_iff.mpr (.inr ⟨level, inRun⟩)

/-- The audit of a block reports it, and nothing about other blocks. -/
theorem auditBlock_eq (framed : links.Framed)
    (found : links.levels[id]? = some own) :
    ∃ violations, links.auditBlock id own = .ok violations ∧
      links.BlockReported id violations ∧
      ∀ violation ∈ violations, violation.block? = some id := by
  obtain ⟨needed, actual, sizes, opened⟩ := framed.auditBlock_open found
  rw [opened]
  by_cases right : actual = needed
  · obtain ⟨lists, audited, reported, inBlock⟩ :=
      framed.auditRuns_eq found ⟨needed, right ▸ sizes⟩
    rw [if_pos right, audited]
    exact ⟨_, rfl, reported, inBlock⟩
  · rw [if_neg right]
    refine ⟨_, rfl, ⟨fun needed' actual' => ?_, fun _ sized => ?_,
      fun violation present level here => ?_⟩, fun violation present => ?_⟩
    · rw [List.count_singleton, sizes]
      refine if_congr ?_ rfl rfl
      simp only [beq_iff_eq, Violation.blockSize.injEq, true_and,
        Option.some.injEq, Prod.mk.injEq]
      refine ⟨fun same => ⟨same, ?_⟩, And.left⟩
      rwa [← same.1, ← same.2]
    · obtain ⟨size, sized⟩ := sized
      cases sizes.symm.trans sized
      exact absurd rfl right
    · cases List.mem_singleton.mp present
      cases here
    · cases List.mem_singleton.mp present
      rfl

/-- The audits of all blocks report each of them. -/
theorem auditBlocks_eq (framed : links.Framed) :
    ∃ lists, (links.levels.toList.zipIdx.mapM fun (own, id) =>
        links.auditBlock id own) = .ok lists ∧
      (∀ id, links.BlockReported id lists.flatten) ∧
      ∀ violation ∈ lists.flatten, violation.block? ≠ none := by
  have found : ∀ block ∈ links.levels.toList.zipIdx,
      links.levels[block.2]? = some block.1 := by
    intro block member
    rw [← Array.getElem?_toList]
    exact List.mem_zipIdx_iff_getElem?.mp member
  choose! lists audited reported inBlock using fun block member =>
    framed.auditBlock_eq (found block member)
  refine ⟨_, mapM_eq_ok audited, fun id => ?_, fun violation present => ?_⟩
  · by_cases inside : id < links.size
    · obtain ⟨own, ownFound⟩ : ∃ own, links.levels[id]? = some own :=
        ⟨_, Array.getElem?_eq_getElem inside⟩
      have member : (own, id) ∈ links.levels.toList.zipIdx := by
        rw [List.mem_zipIdx_iff_getElem?, Array.getElem?_toList]
        exact ownFound
      have distinct : (links.levels.toList.zipIdx.map Prod.snd).Nodup := by
        rw [List.zipIdx_map_snd]
        exact List.nodup_range'
      exact (reported (own, id) member).congr fun violation here =>
        Violation.count_flatten_map inBlock distinct member here
    · refine (blockReported_nil (Nat.not_lt.mp inside)).congr
        fun violation here => List.count_eq_zero.mpr fun present => ?_
      obtain ⟨block, member, there⟩ :=
        Violation.exists_of_mem_flatten_map inBlock present
      cases here.symm.trans there
      exact inside (Array.getElem?_eq_some_iff.mp (found block member)).1
  · obtain ⟨block, _, there⟩ :=
      Violation.exists_of_mem_flatten_map inBlock present
    exact there ▸ Option.some_ne_none block.2

end Framed

/-- Where the slots are laid out in blocks the offsets ascend. -/
theorem Laid.framed (laid : links.Laid) : links.Framed where
  listed := laid.listed
  offsets_size := laid.offsets_size
  ascending := by
    have starts : ∀ (position : Nat)
        (inside : position < links.offsets.toList.length),
        links.offsets.toList[position] = links.blockStart position := by
      intro position inside
      have found := laid.offset_eq position
        (Nat.lt_succ_iff.mp (inside.trans_eq laid.offsets_size))
      exact (Array.getElem?_eq_some_iff.mp found).2
    refine List.pairwise_iff_getElem.mpr
      fun first second inside inside' before => ?_
    rw [starts first inside, starts second inside']
    exact links.blockStart_mono before.le
  last := by
    rw [laid.offset_eq links.size (Nat.le_refl _), laid.slots_size]

theorem Laid.sized (laid : links.Laid) (inside : id < links.size) :
    links.Sized id := by
  obtain ⟨own, found⟩ : ∃ own, links.levels[id]? = some own :=
    ⟨_, Array.getElem?_eq_getElem inside⟩
  refine ⟨links.table.runStart (own + 1), ?_⟩
  rw [blockSizes?_eq found (laid.offset_eq id inside.le)
    (laid.offset_eq (id + 1) inside), blockStart_succ found,
    Nat.add_sub_cancel_left]

end Links

end SmallWorld
