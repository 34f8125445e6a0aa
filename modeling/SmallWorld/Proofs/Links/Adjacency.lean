import SmallWorld.Links.Adjacency
import SmallWorld.Proofs.Journal
import SmallWorld.Proofs.Links.Tiling

/-!
# Links as maps of lists

Links answer every operation as a map of bounded lists does, and show what the
map holds (`Links.performAll_shows`): the map has a list wherever the links
have a run, and the run is that list with free slots behind it.
-/

namespace SmallWorld

namespace Adjacency

variable {adjacency : Adjacency} {id other : PointId} {level level' : Nat}
  {listed : List PointId}

theorem neighbors_of_some (found : adjacency.list? id level = some listed) :
    adjacency.neighbors id level = listed := by
  rw [neighbors, found, Option.getD_some]

theorem neighbors_extend (adjacency : Adjacency) (level : Nat) :
    (adjacency.extend level).neighbors =
      Runs.clear adjacency.neighbors adjacency.size := by
  funext id level'
  by_cases new : id = adjacency.size
  · by_cases reached : level' ≤ level <;>
      simp [neighbors, extend, Runs.clear, new, reached]
  · simp [neighbors, extend, Runs.clear, new]

theorem neighbors_replace (adjacency : Adjacency) (id : PointId) (level : Nat)
    (listed : List PointId) :
    (adjacency.replace id level listed).neighbors =
      Runs.set adjacency.neighbors id level listed := by
  funext other level'
  by_cases same : other = id ∧ level' = level
  · simp [neighbors, replace, Runs.set, same]
  · simp [neighbors, replace, Runs.set, same]

/-- Replacing a list neither makes nor removes one. -/
theorem isSome_replace_iff (found : (adjacency.list? id level).isSome) :
    ((adjacency.replace id level listed).list? other level').isSome ↔
      (adjacency.list? other level').isSome := by
  by_cases same : other = id ∧ level' = level
  · simp [replace, same, found]
  · simp [replace, same]

end Adjacency

namespace Links

/-- The links hold the lists of a map, and have a run wherever there is a
list. -/
structure Mirrors (links : Links) (adjacency : Adjacency) : Prop where
  represents : links.Represents adjacency.neighbors
  size_eq : links.size = adjacency.size
  reaches_iff : ∀ {id level},
    links.Reaches level id ↔ (adjacency.list? id level).isSome

variable {links : Links} {adjacency : Adjacency} {id : PointId} {level : Nat}
  {neighbor : PointId} {operation : Operation}

theorem allocate_of_full (full : greatestSize ≤ links.size) (level : Nat) :
    links.allocate level = .error (.refused (.full greatestSize)) := by
  simp only [allocate, pointId, full, if_true]
  rfl

theorem empty_mirrors (table : LevelTable) :
    (empty table).Mirrors Adjacency.empty where
  represents := empty_represents table _
  size_eq := rfl
  reaches_iff := by
    intro id level
    refine iff_of_false (fun reaches => ?_) Bool.false_ne_true
    exact Nat.not_lt_zero id reaches.lt_size

namespace Mirrors

theorem extended (mirrors : links.Mirrors adjacency)
    (room : links.size < greatestSize) (known : level < links.table.count) :
    (links.extended level).Mirrors (adjacency.extend level) where
  represents := by
    rw [Adjacency.neighbors_extend, ← mirrors.size_eq]
    exact mirrors.represents.extended room known
  size_eq := by
    rw [size_extended, mirrors.size_eq]
    rfl
  reaches_iff := by
    intro id level'
    rw [reaches_extended_iff, mirrors.reaches_iff, mirrors.size_eq]
    by_cases new : id = adjacency.size
    · subst new
      have missing : ¬ (adjacency.list? adjacency.size level').isSome :=
        fun found => Nat.ne_of_lt (mirrors.reaches_iff.mpr found).lt_size
          mirrors.size_eq.symm
      by_cases reached : level' ≤ level
      · simp [Adjacency.extend, reached]
      · simp [Adjacency.extend, reached, missing]
    · simp [Adjacency.extend, new]

theorem withSlots (mirrors : links.Mirrors adjacency)
    (found : (adjacency.list? id level).isSome) {slots : Array PointId}
    {listed : List PointId}
    (represents : { links with slots }.Represents
      (Runs.set adjacency.neighbors id level listed)) :
    { links with slots }.Mirrors (adjacency.replace id level listed) where
  represents := by
    rw [Adjacency.neighbors_replace]
    exact represents
  size_eq := mirrors.size_eq
  reaches_iff := mirrors.reaches_iff.trans
    (Adjacency.isSome_replace_iff found).symm

/-- A neighbour is appended unless it is listed or its list is full. -/
theorem perform_add (mirrors : links.Mirrors adjacency)
    (found : (adjacency.list? id level).isSome)
    (real : neighbor ≠ noNeighbor) : ∃ links',
    links.perform (.add id level neighbor) = .ok
        ((adjacency.perform links.table.branching
          (.add id level neighbor)).1, links') ∧
      links'.table = links.table ∧
      links'.Mirrors (adjacency.perform links.table.branching
        (.add id level neighbor)).2 := by
  have reaches := mirrors.reaches_iff.mpr found
  have represents := mirrors.represents
  simp only [perform, Adjacency.perform]
  by_cases member : neighbor ∈ adjacency.neighbors id level
  · rw [represents.add_eq_known reaches member, if_pos member]
    exact ⟨links, rfl, rfl, mirrors⟩
  · rw [if_neg member]
    by_cases room : (adjacency.neighbors id level).length <
        Adjacency.capacity links.table.branching level
    · obtain ⟨slots, added, represents'⟩ :=
        represents.add_eq_added reaches member real room
      rw [added, if_pos room]
      exact ⟨_, rfl, rfl, mirrors.withSlots found represents'⟩
    · rw [represents.add_eq_full reaches member (Nat.not_lt.mp room),
        if_neg room]
      exact ⟨links, rfl, rfl, mirrors⟩

/-- Links and map answer an operation alike. -/
theorem perform_eq (mirrors : links.Mirrors adjacency)
    (admitted : adjacency.Admits links.table operation) : ∃ links',
    links.perform operation = .ok
        ((adjacency.perform links.table.branching operation).1, links') ∧
      links'.table = links.table ∧
      links'.Mirrors
        (adjacency.perform links.table.branching operation).2 := by
  cases operation with
  | allocate level =>
      simp only [perform, Adjacency.perform]
      by_cases room : links.size < greatestSize
      · rw [allocate_eq room admitted, ← mirrors.size_eq, if_pos room]
        exact ⟨_, rfl, rfl, mirrors.extended room admitted⟩
      · rw [allocate_of_full (Nat.not_lt.mp room), ← mirrors.size_eq,
          if_neg room]
        exact ⟨links, rfl, rfl, mirrors⟩
  | add id level neighbor =>
      obtain ⟨found, real⟩ := admitted
      exact mirrors.perform_add found real
  | overwrite id level neighbors =>
      obtain ⟨found, real, fits⟩ := admitted
      obtain ⟨slots, written, represents'⟩ :=
        mirrors.represents.overwrite_eq (mirrors.reaches_iff.mpr found)
          fits real
      simp only [perform, Adjacency.perform, written, ok_bind]
      exact ⟨_, rfl, rfl, mirrors.withSlots found represents'⟩

/-- Links and map answer operations alike, one after the other. -/
theorem performAll_eq {table : LevelTable} {operations : List Operation}
    {links : Links} {adjacency : Adjacency} (same : links.table = table)
    (mirrors : links.Mirrors adjacency)
    (admitted : adjacency.AdmitsAll table operations) : ∃ links',
    links.performAll operations = .ok
        ((adjacency.performAll table.branching operations).1, links') ∧
      links'.table = table ∧
      links'.Mirrors
        (adjacency.performAll table.branching operations).2 := by
  induction operations generalizing links adjacency with
  | nil => exact ⟨links, rfl, same, mirrors⟩
  | cons operation rest inductionHypothesis =>
      obtain ⟨first, later⟩ := admitted
      obtain ⟨next, performed, nextTable, mirrors'⟩ :=
        mirrors.perform_eq (same ▸ first)
      rw [same] at performed nextTable mirrors'
      obtain ⟨final, ended, finalTable, finalMirrors⟩ :=
        inductionHypothesis nextTable mirrors' later
      refine ⟨final, ?_, finalTable, finalMirrors⟩
      simp only [performAll, performed, ended, ok_bind]
      rfl

end Mirrors

/-- The links read like a map of bounded lists, and their slots are these
lists. -/
structure Shows (links : Links) (adjacency : Adjacency) : Prop where
  size_eq : links.size = adjacency.size
  /-- A point has a list at each level up to its own, and at no other. -/
  level_iff : ∀ {id own}, links.levels[id]? = some own → ∀ level,
    (adjacency.list? id level).isSome ↔ level ≤ own
  neighbors_eq : ∀ {id level listed},
    adjacency.list? id level = some listed →
      links.neighbors id level = .ok listed ∧
      listed.length ≤ Adjacency.capacity links.table.branching level
  slots_eq : links.slots.toList = adjacency.slots links.table

theorem Mirrors.level_iff (mirrors : links.Mirrors adjacency) {own : Nat}
    (found : links.levels[id]? = some own) (level : Nat) :
    (adjacency.list? id level).isSome ↔ level ≤ own := by
  rw [← mirrors.reaches_iff]
  constructor
  · rintro ⟨own', found', below⟩
    rw [found, Option.some.injEq] at found'
    exact found' ▸ below
  · exact fun below => ⟨own, found, below⟩

/-- The runs of a point are its lists, with free slots behind them. -/
theorem Mirrors.block_eq (mirrors : links.Mirrors adjacency) {own : Nat}
    (found : links.levels[id]? = some own) :
    ((List.range links.table.count).flatMap fun level =>
        match adjacency.list? id level with
        | none => []
        | some listed =>
            listed ++ List.replicate
              (Adjacency.capacity links.table.branching level -
                listed.length) noNeighbor) =
      (List.range (own + 1)).flatMap fun level =>
        padded (links.table.runLength level)
          (adjacency.neighbors id level) := by
  have known : own + 1 ≤ links.table.count :=
    mirrors.represents.laid.listed own (Array.mem_of_getElem? found)
  rw [← Nat.add_sub_cancel' known, List.range_add, List.flatMap_append,
    List.flatMap_map]
  have above : ((List.range (links.table.count - (own + 1))).flatMap
      fun level => match adjacency.list? id (own + 1 + level) with
        | none => []
        | some listed =>
            listed ++ List.replicate
              (Adjacency.capacity links.table.branching (own + 1 + level) -
                listed.length) noNeighbor) = [] := by
    refine List.flatMap_eq_nil_iff.mpr fun level _ => ?_
    cases list : adjacency.list? id (own + 1 + level) with
    | none => rfl
    | some listed =>
        have := (mirrors.level_iff found _).mp (Option.isSome_of_eq_some list)
        omega
  rw [above, List.append_nil]
  refine List.flatMap_congr fun level member => ?_
  have below : level ≤ own := Nat.lt_succ_iff.mp (List.mem_range.mp member)
  obtain ⟨listed, list⟩ :=
    Option.isSome_iff_exists.mp ((mirrors.level_iff found level).mpr below)
  rw [list, Adjacency.neighbors_of_some list]
  rfl

theorem Mirrors.shows (mirrors : links.Mirrors adjacency) :
    links.Shows adjacency where
  size_eq := mirrors.size_eq
  level_iff := mirrors.level_iff
  neighbors_eq := by
    intro id level listed list
    have reaches := mirrors.reaches_iff.mpr (Option.isSome_of_eq_some list)
    rw [mirrors.represents.neighbors_eq reaches,
      ← Adjacency.neighbors_of_some list]
    exact ⟨rfl, mirrors.represents.length_le reaches⟩
  slots_eq := by
    rw [Adjacency.slots, ← mirrors.size_eq]
    exact mirrors.represents.toList_slots mirrors.block_eq

/-- Links that start without points answer like a map of bounded lists, and
show what it holds. -/
theorem performAll_shows (table : LevelTable) {operations : List Operation}
    (admitted : Adjacency.empty.AdmitsAll table operations) :
    ∃ links, (empty table).performAll operations = .ok
        ((Adjacency.empty.performAll table.branching operations).1, links) ∧
      links.table = table ∧
      links.Shows
        (Adjacency.empty.performAll table.branching operations).2 := by
  obtain ⟨links, performed, same, mirrors⟩ :=
    (empty_mirrors table).performAll_eq rfl admitted
  exact ⟨links, performed, same, mirrors.shows⟩

def pairTable : LevelTable where
  branching := 2
  probabilities := [.ofBits 0x3fe0000000000000, .ofBits 0x3fd0000000000000]

/-- Two points are linked with each other, and a run of the first one is
filled, tried again and replaced. -/
def pairOperations : List Operation :=
  [.allocate 1, .allocate 0, .add 0 0 1, .add 1 0 0, .add 0 1 7, .add 0 1 8,
    .add 0 1 7, .add 0 1 9, .overwrite 0 1 [9]]

theorem pair_shows :
    Adjacency.empty.AdmitsAll pairTable pairOperations ∧
    ∃ links, (empty pairTable).performAll pairOperations = .ok
        ([.allocated 0, .allocated 1, .linked .added, .linked .added,
          .linked .added, .linked .added, .linked .known, .linked .full,
          .overwritten], links) ∧
      links.table = pairTable ∧
      links.Shows (Adjacency.empty.performAll 2 pairOperations).2 ∧
      links.slots.toList =
        [1, noNeighbor, noNeighbor, noNeighbor, 9, noNeighbor,
          0, noNeighbor, noNeighbor, noNeighbor] := by
  have admitted : Adjacency.empty.AdmitsAll pairTable pairOperations := by
    decide
  obtain ⟨links, performed, table, shows_⟩ :=
    performAll_shows pairTable admitted
  refine ⟨admitted, links, performed, table, shows_, ?_⟩
  rw [shows_.slots_eq, table]
  decide

end Links

end SmallWorld
