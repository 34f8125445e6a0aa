import SmallWorld.Proofs.Links.Layout

/-!
# Slots as lists

Seen from outside, the slots are a list of neighbours for each point and each
of its levels.  `Links.Represents` relates the slots to such lists, and each
operation on the slots is an operation on one list that leaves all others as
they are.
-/

namespace SmallWorld

/-- A list of neighbours for each point and level. -/
abbrev Runs := PointId → Nat → List PointId

def Runs.set (runs : Runs) (id : PointId) (level : Nat)
    (neighbors : List PointId) : Runs :=
  fun other level' =>
    if other = id ∧ level' = level then neighbors else runs other level'

/-- The runs with those of one point empty. -/
def Runs.clear (runs : Runs) (id : PointId) : Runs :=
  fun other level => if other = id then [] else runs other level

@[simp]
theorem Runs.set_self (runs : Runs) (id : PointId) (level : Nat)
    (neighbors : List PointId) :
    runs.set id level neighbors id level = neighbors :=
  if_pos ⟨rfl, rfl⟩

theorem Runs.set_of_ne {runs : Runs} {id other : PointId}
    {level level' : Nat} (neighbors : List PointId)
    (different : id ≠ other ∨ level ≠ level') :
    runs.set id level neighbors other level' = runs other level' :=
  if_neg fun both => different.elim (fun h => h both.1.symm)
    (fun h => h both.2.symm)

namespace Links

/-- The slots of a run that lists the given neighbours. -/
def padded (length : Nat) (neighbors : List PointId) : List PointId :=
  neighbors ++ List.replicate (length - neighbors.length) noNeighbor

/-- The slots hold the given lists of neighbours. -/
structure Represents (links : Links) (runs : Runs) : Prop where
  laid : links.Laid
  run_eq : ∀ {id level}, links.Reaches level id →
    links.run id level =
      .ok (padded (links.table.runLength level) (runs id level))
  length_le : ∀ {id level}, links.Reaches level id →
    (runs id level).length ≤ links.table.runLength level
  noNeighbor_notMem : ∀ {id level}, links.Reaches level id →
    noNeighbor ∉ runs id level

theorem length_padded {length : Nat} {neighbors : List PointId}
    (fits : neighbors.length ≤ length) :
    (padded length neighbors).length = length := by
  unfold padded
  rw [List.length_append, List.length_replicate]
  omega

theorem takeWhile_padded {length : Nat} {neighbors : List PointId}
    {property : PointId → Bool} (all : ∀ id ∈ neighbors, property id = true)
    (stop : property noNeighbor = false) :
    (padded length neighbors).takeWhile property = neighbors := by
  unfold padded
  rw [List.takeWhile_append_of_pos all]
  cases length - neighbors.length with
  | zero => simp
  | succ free => simp [List.replicate_succ, stop]

theorem listed_padded {length : Nat} {neighbors : List PointId}
    (real : noNeighbor ∉ neighbors) :
    listed (padded length neighbors) = neighbors := by
  refine takeWhile_padded (fun id member => ?_) (by simp)
  have : id ≠ noNeighbor := fun equal => real (equal ▸ member)
  simpa using this

theorem toList_extract_eq {slots : Array PointId} {start length : Nat}
    {values : List PointId} (inside : start + length ≤ slots.size)
    (counted : values.length = length)
    (read : ∀ position < length, slots[start + position]? = values[position]?) :
    (slots.extract start (start + length)).toList = values := by
  apply List.ext_getElem?
  intro position
  rw [Array.getElem?_toList, Array.getElem?_extract]
  by_cases within : position < length
  · rw [if_pos (by omega)]
    exact read position within
  · rw [if_neg (by omega), List.getElem?_eq_none (by omega)]

theorem size_write (slots : Array PointId) (start : Nat)
    (values : List PointId) : (write slots start values).size = slots.size := by
  induction values generalizing slots start with
  | nil => rfl
  | cons value rest inductionHypothesis =>
      unfold write
      rw [inductionHypothesis, Array.size_setIfInBounds]

/-- Writing changes the slots from the start on, one for each value. -/
theorem getElem?_write {slots : Array PointId} {start position : Nat}
    {values : List PointId} (inside : start + values.length ≤ slots.size) :
    (write slots start values)[position]? =
      if start ≤ position ∧ position < start + values.length then
        values[position - start]?
      else
        slots[position]? := by
  induction values generalizing slots start with
  | nil =>
      rw [if_neg (by simp)]
      rfl
  | cons value rest inductionHypothesis =>
      rw [List.length_cons] at inside ⊢
      unfold write
      rw [inductionHypothesis (by rw [Array.size_setIfInBounds]; omega),
        Array.getElem?_setIfInBounds]
      rcases Nat.lt_trichotomy position start with before | here | behind
      · rw [if_neg (by omega), if_neg (by omega), if_neg (by omega)]
      · subst here
        rw [if_neg (by omega), if_pos rfl, if_pos (by omega),
          if_pos (by omega)]
        simp
      · obtain ⟨offset, rfl⟩ := Nat.exists_eq_add_of_lt behind
        rw [if_neg (show ¬ start = start + offset + 1 by omega)]
        by_cases within : offset < rest.length
        · rw [if_pos (by omega), if_pos (by omega),
            show start + offset + 1 - (start + 1) = offset by omega,
            show start + offset + 1 - start = offset + 1 by omega,
            List.getElem?_cons_succ]
        · rw [if_neg (by omega), if_neg (by omega)]

variable {links : Links} {runs : Runs} {id neighbor : PointId} {level : Nat}

theorem Laid.ne_noNeighbor (laid : links.Laid)
    (reaches : links.Reaches level id) : id ≠ noNeighbor := by
  have inside := reaches.lt_size
  have bound : links.size ≤ noNeighbor := laid.size_le
  exact Nat.ne_of_lt (inside.trans_le bound)

theorem Laid.withSlots (laid : links.Laid) {slots : Array PointId}
    (size : slots.size = links.slots.size) :
    { links with slots }.Laid :=
  { laid with slots_size := size.trans laid.slots_size }

/-- Slots in which one run is written represent the runs with that one
replaced. -/
theorem Represents.withSlots (represents : links.Represents runs)
    (reaches : links.Reaches level id) {slots : Array PointId}
    {neighbors : List PointId} (size : slots.size = links.slots.size)
    (outside : ∀ position, position < links.address id level ∨
      links.address id level + links.table.runLength level ≤ position →
        slots[position]? = links.slots[position]?)
    (inside : ∀ position < links.table.runLength level,
      slots[links.address id level + position]? =
        (padded (links.table.runLength level) neighbors)[position]?)
    (fits : neighbors.length ≤ links.table.runLength level)
    (real : noNeighbor ∉ neighbors) :
    { links with slots }.Represents (runs.set id level neighbors) := by
  have laid := represents.laid.withSlots size
  refine ⟨laid, ?_, ?_, ?_⟩
  · intro other level' reaches'
    rw [laid.run_eq reaches']
    have room : links.address other level' + links.table.runLength level' ≤
        slots.size := by
      rw [size]
      exact represents.laid.address_add_le_size reaches'
    refine congrArg Except.ok ?_
    by_cases same : other = id ∧ level' = level
    · obtain ⟨rfl, rfl⟩ := same
      rw [Runs.set_self]
      exact toList_extract_eq room (length_padded fits) inside
    · have different : id ≠ other ∨ level ≠ level' := by
        by_contra both
        push Not at both
        exact same ⟨both.1.symm, both.2.symm⟩
      have apart := address_separate reaches reaches' different
      rw [Runs.set_of_ne _ different]
      have old := represents.run_eq reaches'
      rw [represents.laid.run_eq reaches'] at old
      rw [← Except.ok.inj old]
      refine toList_extract_eq room ?_ fun position within => ?_
      · rw [Except.ok.inj old, length_padded (represents.length_le reaches')]
      · change position < links.table.runLength level' at within
        change links.address other level' + links.table.runLength level' ≤
          slots.size at room
        rw [Array.getElem?_toList, Array.getElem?_extract, if_pos (by omega)]
        refine outside _ ?_
        change links.address other level' + position < _ ∨
          _ ≤ links.address other level' + position
        omega
  · intro other level' reaches'
    by_cases same : other = id ∧ level' = level
    · obtain ⟨rfl, rfl⟩ := same
      rwa [Runs.set_self]
    · rw [Runs.set, if_neg same]
      exact represents.length_le reaches'
  · intro other level' reaches'
    by_cases same : other = id ∧ level' = level
    · obtain ⟨rfl, rfl⟩ := same
      rwa [Runs.set_self]
    · rw [Runs.set, if_neg same]
      exact represents.noNeighbor_notMem reaches'

namespace Represents

theorem neighbors_eq (represents : links.Represents runs)
    (reaches : links.Reaches level id) :
    links.neighbors id level = .ok (runs id level) := by
  simp only [neighbors, represents.run_eq reaches, bind, Except.bind,
    listed_padded (represents.noNeighbor_notMem reaches)]
  rfl

/-- A listed neighbour is not listed again. -/
theorem add_eq_known (represents : links.Represents runs)
    (reaches : links.Reaches level id) (member : neighbor ∈ runs id level) :
    links.add id level neighbor = .ok (.known, links) := by
  have noFree := represents.noNeighbor_notMem reaches
  obtain ⟨before, after, split, first⟩ :=
    List.eq_append_cons_of_mem member
  have used : (padded (links.table.runLength level)
      (runs id level)).takeWhile (fun slot =>
        slot != neighbor && slot != noNeighbor) = before := by
    unfold padded
    rw [split, List.append_assoc, List.takeWhile_append_of_pos, List.cons_append,
      List.takeWhile_cons_of_neg (by simp), List.append_nil]
    intro earlier inBefore
    have notNeighbor : earlier ≠ neighbor :=
      fun equal => first (equal ▸ inBefore)
    have notFree : earlier ≠ noNeighbor := by
      rintro rfl
      exact noFree (split ▸ List.mem_append_left _ inBefore)
    simp [notNeighbor, notFree]
  have found : (padded (links.table.runLength level)
      (runs id level))[before.length]? = some neighbor := by
    unfold padded
    rw [split, List.append_assoc, List.getElem?_append_right (Nat.le_refl _)]
    simp
  have shorter := (List.getElem?_eq_some_iff.mp found).1
  simp only [add, represents.laid.bounds_eq reaches,
    represents.run_eq reaches, bind, Except.bind, used,
    Nat.ne_of_lt shorter, if_false, found, if_true]
  rfl

/-- What is not listed is looked for up to the first free slot. -/
private theorem takeWhile_absent (represents : links.Represents runs)
    (reaches : links.Reaches level id) (absent : neighbor ∉ runs id level) :
    (padded (links.table.runLength level) (runs id level)).takeWhile
      (fun slot => slot != neighbor && slot != noNeighbor) =
        runs id level := by
  refine takeWhile_padded (fun other member => ?_) (by simp)
  have notNeighbor : other ≠ neighbor := fun equal => absent (equal ▸ member)
  have notFree : other ≠ noNeighbor :=
    fun equal => represents.noNeighbor_notMem reaches (equal ▸ member)
  simp [notNeighbor, notFree]

/-- A new neighbour takes the first free slot. -/
theorem add_eq_added (represents : links.Represents runs)
    (reaches : links.Reaches level id) (absent : neighbor ∉ runs id level)
    (real : neighbor ≠ noNeighbor)
    (free : (runs id level).length < links.table.runLength level) :
    ∃ slots, links.add id level neighbor =
        .ok (.added, { links with slots }) ∧
      { links with slots }.Represents
        (runs.set id level (runs id level ++ [neighbor])) := by
  have room := represents.laid.address_add_le_size reaches
  have run := represents.run_eq reaches
  have length := length_padded free.le
  have slot : (padded (links.table.runLength level)
      (runs id level))[(runs id level).length]? = some noNeighbor := by
    unfold padded
    rw [List.getElem?_append_right (Nat.le_refl _)]
    simp only [Nat.sub_self]
    rw [List.getElem?_replicate, if_pos (by omega)]
  refine ⟨links.slots.setIfInBounds
    (links.address id level + (runs id level).length) neighbor, ?_, ?_⟩
  · simp only [add, represents.laid.bounds_eq reaches, run, bind,
      Except.bind, takeWhile_absent represents reaches absent, length,
      Nat.ne_of_lt free, if_false, slot, Option.some.injEq, real.symm]
    rfl
  · refine represents.withSlots reaches Array.size_setIfInBounds ?_ ?_ ?_ ?_
    · intro position outside
      rw [Array.getElem?_setIfInBounds_ne (by omega)]
    · intro position within
      have old : links.slots[links.address id level + position]? =
          (padded (links.table.runLength level)
            (runs id level))[position]? := by
        rw [represents.laid.run_eq reaches] at run
        rw [← Except.ok.inj run, Array.getElem?_toList,
          Array.getElem?_extract, if_pos (by omega)]
      rw [Array.getElem?_setIfInBounds, old]
      unfold padded
      rw [List.append_assoc, List.length_append, List.length_singleton]
      rcases Nat.lt_trichotomy position (runs id level).length with
        before | here | behind
      · rw [if_neg (by omega), List.getElem?_append_left before,
          List.getElem?_append_left before]
      · rw [if_pos (by omega), if_pos (by omega),
          List.getElem?_append_right (by omega), here]
        simp
      · rw [if_neg (by omega), List.getElem?_append_right (by omega),
          List.getElem?_append_right (by omega),
          List.getElem?_append_right (by rw [List.length_singleton]; omega),
          List.length_singleton, List.getElem?_replicate,
          List.getElem?_replicate, if_pos (by omega), if_pos (by omega)]
    · rw [List.length_append, List.length_singleton]
      omega
    · intro member
      rcases List.mem_append.mp member with old | new
      · exact represents.noNeighbor_notMem reaches old
      · exact real (List.mem_singleton.mp new).symm

theorem add_eq_full (represents : links.Represents runs)
    (reaches : links.Reaches level id) (absent : neighbor ∉ runs id level)
    (full : links.table.runLength level ≤ (runs id level).length) :
    links.add id level neighbor = .ok (.full, links) := by
  have fits := represents.length_le reaches
  have length := length_padded fits
  simp only [add, represents.laid.bounds_eq reaches,
    represents.run_eq reaches, bind, Except.bind,
    takeWhile_absent represents reaches absent, length,
    Nat.le_antisymm fits full, if_true]
  rfl

theorem overwrite_eq (represents : links.Represents runs)
    (reaches : links.Reaches level id) {neighbors : List PointId}
    (fits : neighbors.length ≤ links.table.runLength level)
    (real : noNeighbor ∉ neighbors) :
    ∃ slots, links.overwrite id level neighbors = .ok { links with slots } ∧
      { links with slots }.Represents (runs.set id level neighbors) := by
  have room := represents.laid.address_add_le_size reaches
  have length := length_padded fits
  refine ⟨write links.slots (links.address id level)
    (padded (links.table.runLength level) neighbors), ?_, ?_⟩
  · simp only [overwrite, represents.laid.bounds_eq reaches, bind,
      Except.bind, Nat.not_lt.mpr fits, if_false, room, if_true]
    rfl
  · refine represents.withSlots reaches (size_write _ _ _) ?_ ?_ fits real
    · intro position outside
      rw [getElem?_write (by omega), if_neg (by omega)]
    · intro position within
      rw [getElem?_write (by omega), if_pos (by omega),
        Nat.add_sub_cancel_left]

end Represents

theorem empty_represents (table : LevelTable) (runs : Runs) :
    (empty table).Represents runs := by
  have nobody : ∀ {id level}, ¬ (empty table).Reaches level id :=
    fun reaches => Nat.not_lt_zero _ reaches.lt_size
  refine ⟨⟨Nat.zero_le _, ?_, ?_, rfl, rfl⟩, ?_, ?_, ?_⟩
  · intro own member
    simp [empty] at member
  · intro id first
    obtain rfl : id = 0 := Nat.le_zero.mp first
    rfl
  · exact fun reaches => (nobody reaches).elim
  · exact fun reaches => (nobody reaches).elim
  · exact fun reaches => (nobody reaches).elim

/-- The links with one more block of free slots. -/
def extended (links : Links) (level : Nat) : Links :=
  { links with
    slots := links.slots ++
      Array.replicate (links.table.runStart (level + 1)) noNeighbor
    offsets := links.offsets.push (links.slots.size +
      links.table.runStart (level + 1))
    levels := links.levels.push level }

theorem allocate_eq (room : links.size < greatestSize)
    (known : level < links.table.count) :
    links.allocate level = .ok (links.size, links.extended level) := by
  simp only [allocate, pointId, Nat.not_le.mpr room, if_false,
    LevelTable.blockLength, known, if_true, extended]
  simp [bind, Except.bind, pure, Except.pure]

section Extended

theorem size_extended : (links.extended level).size = links.size + 1 :=
  Array.size_push level

theorem blockStart_extended (old : id ≤ links.size) :
    (links.extended level).blockStart id = links.blockStart id := by
  unfold blockStart extended
  rw [Array.toList_push, List.take_append_of_le_length old]

theorem blockStart_extended_size :
    (links.extended level).blockStart (links.size + 1) =
      links.blockStart links.size + links.table.runStart (level + 1) := by
  have found : (links.extended level).levels[links.size]? = some level :=
    Array.getElem?_push_size
  rw [blockStart_succ found, blockStart_extended (Nat.le_refl _)]
  rfl

theorem reaches_extended_iff {level' : Nat} :
    (links.extended level).Reaches level' id ↔
      links.Reaches level' id ∨ id = links.size ∧ level' ≤ level := by
  unfold Reaches extended
  simp only [Array.getElem?_push]
  constructor
  · rintro ⟨own, found, above⟩
    split at found
    · next new =>
        cases found
        exact Or.inr ⟨new, above⟩
    · exact Or.inl ⟨own, found, above⟩
  · rintro (⟨own, found, above⟩ | ⟨rfl, above⟩)
    · have inside := (Array.getElem?_eq_some_iff.mp found).1
      exact ⟨own, by rwa [if_neg (Nat.ne_of_lt inside)], above⟩
    · exact ⟨level, if_pos rfl, above⟩

theorem Laid.extended (laid : links.Laid) (room : links.size < greatestSize)
    (known : level < links.table.count) : (links.extended level).Laid where
  size_le := by
    rw [size_extended]
    exact room
  listed := by
    intro own member
    rcases Array.mem_push.mp member with old | rfl
    · exact laid.listed own old
    · exact known
  offset_eq := by
    intro id inside
    rw [size_extended] at inside
    have sized := laid.offsets_size
    rcases Nat.lt_or_eq_of_le inside with old | rfl
    · rw [blockStart_extended (Nat.le_of_lt_succ old)]
      refine Eq.trans ?_ (laid.offset_eq id (Nat.le_of_lt_succ old))
      exact (Array.getElem?_push_lt (by omega)).trans
        (Array.getElem?_eq_getElem _).symm
    · rw [blockStart_extended_size, ← laid.slots_size, ← sized]
      exact Array.getElem?_push_size
  offsets_size := by
    rw [size_extended, ← laid.offsets_size]
    exact Array.size_push _
  slots_size := by
    rw [size_extended, blockStart_extended_size, ← laid.slots_size]
    simp [Links.extended]

/-- A new point starts with empty runs. -/
theorem Represents.extended (represents : links.Represents runs)
    (room : links.size < greatestSize) (known : level < links.table.count) :
    (links.extended level).Represents (runs.clear links.size) := by
  have laid := represents.laid.extended room known
  have cleared : ∀ {other level'}, links.Reaches level' other →
      runs.clear links.size other level' = runs other level' := by
    intro other level' old
    exact if_neg (Nat.ne_of_lt old.lt_size)
  refine ⟨laid, ?_, ?_, ?_⟩
  · intro other level' reaches
    rw [laid.run_eq reaches]
    refine congrArg Except.ok ?_
    have inside := laid.address_add_le_size reaches
    change _ + links.table.runLength level' ≤ _ at inside
    change (Array.extract _ _ (_ + links.table.runLength level')).toList =
      padded (links.table.runLength level') _
    rcases reaches_extended_iff.mp reaches with old | ⟨rfl, above⟩
    · have address : (links.extended level).address other level' =
          links.address other level' := by
        unfold address
        rw [blockStart_extended old.lt_size.le]
        rfl
      have oldInside := represents.laid.address_add_le_size old
      have oldRun := represents.run_eq old
      rw [represents.laid.run_eq old] at oldRun
      rw [cleared old]
      refine toList_extract_eq inside
        (length_padded (represents.length_le old)) fun position within => ?_
      rw [← Except.ok.inj oldRun, Array.getElem?_toList,
        Array.getElem?_extract, if_pos (by omega), address]
      exact Array.getElem?_append_left (by omega)
    · rw [Runs.clear, if_pos rfl]
      refine toList_extract_eq inside (length_padded (Nat.zero_le _))
        fun position within => ?_
      have start : links.slots.size ≤
          (links.extended level).address links.size level' := by
        unfold address
        rw [blockStart_extended (Nat.le_refl _), ← represents.laid.slots_size]
        exact Nat.le_add_right _ _
      have total : (links.extended level).slots.size = links.slots.size +
          links.table.runStart (level + 1) := by
        simp [Links.extended]
      unfold padded
      rw [List.nil_append, List.length_nil, Nat.sub_zero,
        List.getElem?_replicate, if_pos within]
      refine (Array.getElem?_append_right (by omega)).trans ?_
      rw [Array.getElem?_replicate, if_pos (by omega)]
  · intro other level' reaches
    rcases reaches_extended_iff.mp reaches with old | ⟨rfl, above⟩
    · rw [cleared old]
      exact represents.length_le old
    · rw [Runs.clear, if_pos rfl]
      exact Nat.zero_le _
  · intro other level' reaches
    rcases reaches_extended_iff.mp reaches with old | ⟨rfl, above⟩
    · rw [cleared old]
      exact represents.noNeighbor_notMem old
    · rw [Runs.clear, if_pos rfl]
      exact List.not_mem_nil

end Extended

end Links

end SmallWorld
