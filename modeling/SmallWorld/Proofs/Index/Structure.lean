import SmallWorld.Proofs.Index.Auditing
import SmallWorld.Proofs.Index.Outline

/-!
# The structure of every index

Whatever vectors are inserted, accepted or not, and whatever levels are drawn,
the parts of an index keep fitting each other (`Index.WellFormed`), so an
audit never finds a violation.
-/

namespace SmallWorld

namespace Index

variable {σ : Type}

/-- The vectors, the blocks, the runs and the entry point fit each other. -/
structure WellFormed (index : Index σ) : Prop where
  /-- There are as many vectors as blocks. -/
  size_eq : index.cloud.size = index.links.size
  /-- Each block is as long as the level of its point calls for. -/
  block : ∀ {id own : Nat}, index.links.levels[id]? = some own →
    ∃ start stop, index.links.offset id = .ok start ∧
      index.links.offset (id + 1) = .ok stop ∧ start ≤ stop ∧
      index.links.table.blockLength own = .ok (stop - start)
  /-- Each run lists different other points that reach its level, as many as
  the settings allow, and its other slots are free. -/
  run : ∀ {id own level : Nat},
    index.links.levels[id]? = some own → level ≤ own →
    ∃ neighbors free,
      index.links.run id level =
        .ok (neighbors ++ List.replicate free noNeighbor) ∧
      neighbors.length ≤ index.settings.neighborBound level ∧
      neighbors.Nodup ∧
      ∀ neighbor ∈ neighbors, neighbor < index.size ∧ neighbor ≠ id ∧
        ∃ other, index.links.levels[neighbor]? = some other ∧ level ≤ other
  /-- There is an entry point unless there are no points. -/
  entry_none_iff : index.entryPoint = none ↔ index.size = 0
  /-- The entry point is on the top level. -/
  entry_level : ∀ {entryPoint : PointId}, index.entryPoint = some entryPoint →
    index.links.levels[entryPoint]? = some index.topLevel
  /-- No point is above the top level, once there are points. -/
  level_le : ∀ {id own : Nat}, index.links.levels[id]? = some own →
    own ≤ index.topLevel

variable {index : Index σ} {runs : Runs}

theorem Sound.wellFormed (sound : index.Sound runs) : index.WellFormed := by
  have laid := sound.represents.laid
  refine ⟨sound.size_eq, ?_, ?_, ?_, ?_, ?_⟩
  · intro id own found
    have inside : id < index.links.size :=
      (Array.getElem?_eq_some_iff.mp found).1
    refine ⟨index.links.blockStart id, index.links.blockStart (id + 1),
      ?_, ?_, index.links.blockStart_mono (Nat.le_succ id), ?_⟩
    · simp only [Links.offset, laid.offset_eq id inside.le]
    · simp only [Links.offset, laid.offset_eq (id + 1) inside]
    · have listed := laid.listed own (Array.mem_of_getElem? found)
      rw [Links.blockStart_succ found, Nat.add_sub_cancel_left]
      simp only [LevelTable.blockLength, listed, if_true]
  · intro id own level found below
    have reaches : index.links.Reaches level id := ⟨own, found, below⟩
    refine ⟨runs id level, _, sound.represents.run_eq reaches, ?_,
      sound.proper.nodup reaches, fun neighbor member => ?_⟩
    · rw [sound.neighborBound_eq]
      exact sound.represents.length_le reaches
    · have neighborReaches := sound.proper.reaches reaches member
      refine ⟨?_, sound.proper.ne reaches member, neighborReaches⟩
      unfold size
      rw [sound.size_eq]
      exact neighborReaches.lt_size
  · unfold size
    rw [sound.size_eq]
    cases entry : index.entryPoint with
    | none => exact iff_of_true rfl (sound.links_empty entry)
    | some entryPoint =>
        refine iff_of_false (Option.some_ne_none entryPoint) fun empty => ?_
        have inside := (sound.entry_reaches entry).lt_size
        exact Nat.not_lt_zero entryPoint (empty ▸ inside)
  · intro entryPoint some
    exact (sound.entry_onTop some).1
  · intro id own found
    cases entry : index.entryPoint with
    | none =>
        have inside := (Array.getElem?_eq_some_iff.mp found).1
        exact absurd (sound.links_empty entry ▸ inside) (Nat.not_lt_zero id)
    | some entryPoint =>
        exact (sound.entry_onTop entry).2 own (Array.mem_of_getElem? found)

end Index

/-- Proper runs make orderly blocks. -/
theorem Links.Represents.orderly {links : Links} {runs : Runs} {id : PointId}
    (represents : links.Represents runs)
    (proper : runs.Proper links.Reaches) (inside : id < links.size) :
    links.Orderly id := by
  refine ⟨represents.laid.sized inside, fun level reaches => ?_⟩
  refine ⟨_, represents.run_eq reaches, runs id level, _, rfl,
    represents.noNeighbor_notMem reaches, proper.nodup reaches,
    fun neighbor member => ?_⟩
  exact ⟨proper.ne reaches member, proper.reaches reaches member⟩

namespace Index

variable {σ : Type} {index : Index σ} {runs : Runs}

theorem Sound.audit_eq (sound : index.Sound runs) :
    index.audit = .ok [] := by
  refine (audit_eq_nil_iff sound.represents.laid.framed
    fun entryPoint entry => (sound.entry_reaches entry).lt_size).mpr ⟨?_, ?_⟩
  · exact fun id inside => sound.represents.orderly sound.proper inside
  · exact fun entryPoint entry => (sound.entry_onTop entry).1

/-- Every run of calls on a fresh index ends at a well-formed index without
violations, and it does end if there is a level for new points. -/
theorem run_wellFormed [UniformSource σ] {start : Index σ}
    (fresh : start.IsFresh) (calls : List Call) :
    (∀ final, start.run calls = .ok final →
        final.WellFormed ∧ final.audit = .ok []) ∧
      (0 < start.links.table.count →
        ∃ final, start.run calls = .ok final) := by
  obtain ⟨partly, totally⟩ := run_eq (motive := fun _ _ => True)
    (fun _ _ _ _ _ _ => trivial) (fresh.sound fun _ _ => []) trivial calls
  refine ⟨fun final ended => ?_, totally⟩
  obtain ⟨runs, sound, _⟩ := partly final ended
  exact ⟨sound.wellFormed, sound.audit_eq⟩

theorem line_wellFormed : lineStart.IsFresh ∧
    0 < lineStart.links.table.count ∧
    ∃ final, lineStart.run [.insertAll linePoints, .insert []] = .ok final ∧
      final.WellFormed ∧ final.audit = .ok [] := by
  obtain ⟨partly, totally⟩ := run_wellFormed lineStart_isFresh
    [.insertAll linePoints, .insert []]
  obtain ⟨final, ended⟩ := totally (by decide)
  exact ⟨lineStart_isFresh, by decide, final, ended, partly final ended⟩

end Index

end SmallWorld
