import SmallWorld.Proofs.Links.Runs

/-!
# Slots without gaps

Read from the first slot to the last, the slots are the runs of all points,
points and then levels ascending, and nothing else
(`Represents.toList_slots`).
-/

namespace SmallWorld

/-- Consecutive parts of an array make up the whole between them. -/
theorem toList_extract_flatMap {α : Type} (elements : Array α)
    {start : Nat → Nat} (ascending : Monotone start) (count : Nat) :
    (elements.extract (start 0) (start count)).toList =
      (List.range count).flatMap fun part =>
        (elements.extract (start part) (start (part + 1))).toList := by
  induction count with
  | zero => simp
  | succ count inductionHypothesis =>
      have first : start 0 ≤ start count := ascending (Nat.zero_le count)
      have last : start count ≤ start (count + 1) :=
        ascending (Nat.le_succ count)
      rw [List.range_succ, List.flatMap_append, ← inductionHypothesis,
        List.flatMap_singleton, ← Array.toList_append,
        Array.extract_append_extract, Nat.min_eq_left first,
        Nat.max_eq_right last]

namespace Links

variable {links : Links} {runs : Runs} {id : PointId} {own : Nat}

theorem address_mono (links : Links) (id : PointId) :
    Monotone (links.address id) :=
  links.table.runStart_mono.const_add (links.blockStart id)

theorem address_succ (links : Links) (id : PointId) (level : Nat) :
    links.address id (level + 1) =
      links.address id level + links.table.runLength level :=
  (Nat.add_assoc _ _ _).symm

theorem address_above (found : links.levels[id]? = some own) :
    links.address id (own + 1) = links.blockStart (id + 1) :=
  (blockStart_succ found).symm

/-- A block consists of the runs of its point. -/
theorem Represents.toList_block (represents : links.Represents runs)
    (found : links.levels[id]? = some own) :
    (links.slots.extract (links.blockStart id)
        (links.blockStart (id + 1))).toList =
      (List.range (own + 1)).flatMap fun level =>
        padded (links.table.runLength level) (runs id level) := by
  rw [← address_above found]
  refine (toList_extract_flatMap links.slots (links.address_mono id)
    (own + 1)).trans (List.flatMap_congr fun level member => ?_)
  have reaches : links.Reaches level id :=
    ⟨own, found, Nat.lt_succ_iff.mp (List.mem_range.mp member)⟩
  have run := represents.run_eq reaches
  rw [represents.laid.run_eq reaches, ← address_succ] at run
  exact Except.ok.inj run

/-- The slots consist of the blocks of all points. -/
theorem Represents.toList_slots (represents : links.Represents runs)
    {block : PointId → List PointId}
    (blocks : ∀ {id own}, links.levels[id]? = some own →
      block id = (List.range (own + 1)).flatMap fun level =>
        padded (links.table.runLength level) (runs id level)) :
    links.slots.toList = (List.range links.size).flatMap block := by
  calc
    links.slots.toList =
        (links.slots.extract (links.blockStart 0)
          (links.blockStart links.size)).toList := by
      rw [← represents.laid.slots_size]
      exact congrArg Array.toList Array.extract_size.symm
    _ = (List.range links.size).flatMap fun id =>
        (links.slots.extract (links.blockStart id)
          (links.blockStart (id + 1))).toList :=
      toList_extract_flatMap links.slots links.blockStart_mono links.size
    _ = (List.range links.size).flatMap block := by
      refine List.flatMap_congr fun id member => ?_
      have inside : id < links.levels.size := List.mem_range.mp member
      have found : links.levels[id]? = some links.levels[id] :=
        Array.getElem?_eq_getElem inside
      rw [represents.toList_block found, blocks found]

end Links

end SmallWorld
