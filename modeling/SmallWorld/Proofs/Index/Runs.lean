import SmallWorld.Proofs.Index.Growth

/-!
# Indexes that calls lead to

A call either leaves an index as it is or places some accepted vectors in it.
So what holds of a fresh index and is preserved by placing a vector holds of
every index that calls lead to (`Reachable.induction`).
-/

namespace SmallWorld

theorem requireRoom_eq_ok_iff {size additional : Nat} :
    requireRoom size additional = .ok () ↔
      additional ≤ greatestSize - size := by
  unfold requireRoom
  split <;> simp <;> omega

theorem requireAllAcceptable_eq_ok_iff {dimension : Nat}
    {vectors : List Coordinates} :
    requireAllAcceptable dimension vectors = .ok () ↔
      ∀ vector ∈ vectors, Acceptable dimension vector := by
  induction vectors with
  | nil => simp [requireAllAcceptable]
  | cons vector rest inductionHypothesis =>
      rw [List.forall_mem_cons, ← inductionHypothesis,
        ← requireAcceptable_eq_ok_iff, requireAllAcceptable]
      cases requireAcceptable dimension vector with
      | error refusal => exact iff_of_false nofun (fun both => nomatch both.1)
      | ok _ => exact (and_iff_right rfl).symm

namespace Index

variable {σ : Type} [UniformSource σ] {index : Index σ} {runs : Runs}
  {vector : Coordinates}

/-- What placing a vector preserves, over the index and its runs. -/
def PreservedByPlacing (motive : Index σ → Runs → Prop) : Prop :=
  ∀ {index : Index σ} {runs : Runs} {vector : Coordinates} {next : Index σ},
    index.Sound runs → motive index runs →
    Acceptable index.cloud.dimension vector → index.size < greatestSize →
    index.Gains vector next →
    next.Sound (index.grown runs vector
      (index.links.table.draw index.source).1) →
    motive next (index.grown runs vector
      (index.links.table.draw index.source).1)

theorem place_of_unlisted (sound : index.Sound runs)
    (room : index.size < greatestSize)
    (unlisted : index.links.table.count = 0) :
    (index.place vector).outcome = .error (.faulted .outOfBounds) := by
  have linksRoom : ¬ greatestSize ≤ index.links.size :=
    Nat.not_le.mpr (sound.size_eq ▸ room)
  simp only [place, Traced.outcome_bind, push_eq room,
    Traced.outcome_lift_refusal_ok, ok_bind, Links.allocate, pointId,
    linksRoom, if_false, LevelTable.blockLength, unlisted,
    Nat.not_lt_zero]
  rfl

variable {motive : Index σ → Runs → Prop}

theorem placeAll_eq (preserved : PreservedByPlacing motive)
    {vectors : List Coordinates} {index : Index σ} {runs : Runs}
    (sound : index.Sound runs) (holds : motive index runs)
    (acceptable : ∀ vector ∈ vectors,
      Acceptable index.cloud.dimension vector)
    (room : vectors.length ≤ greatestSize - index.size) :
    (∀ next, (placeAll vectors index).outcome = .ok next →
        next.links.table = index.links.table ∧
          ∃ runs', next.Sound runs' ∧ motive next runs') ∧
      (0 < index.links.table.count →
        ∃ next, (placeAll vectors index).outcome = .ok next) := by
  induction vectors generalizing index runs with
  | nil =>
      refine ⟨fun next placed => ?_, fun _ => ⟨index, rfl⟩⟩
      cases placed
      exact ⟨rfl, runs, sound, holds⟩
  | cons vector rest inductionHypothesis =>
      rw [List.length_cons] at room
      have first := acceptable vector List.mem_cons_self
      have here : index.size < greatestSize := by omega
      have unfolded : (placeAll (vector :: rest) index).outcome =
          (index.place vector).outcome >>= fun result =>
            (placeAll rest result.2).outcome := by
        simp only [placeAll, Traced.outcome_bind]
      by_cases listed : 0 < index.links.table.count
      · obtain ⟨next, placed, gains, sound'⟩ :=
          sound.place first here listed
        have dimension : next.cloud.dimension = index.cloud.dimension := by
          rw [gains.cloud_eq]
        have size := gains.size_eq
        obtain ⟨partly, totally⟩ := inductionHypothesis sound'
          (preserved sound holds first here gains sound')
          (fun later member => dimension ▸ acceptable later
            (List.mem_cons_of_mem _ member))
          (by omega)
        rw [unfolded, placed, ok_bind]
        rw [gains.table_eq] at partly totally
        exact ⟨partly, totally⟩
      · refine ⟨fun next placed => ?_, fun positive =>
          (listed positive).elim⟩
        rw [unfolded, place_of_unlisted sound here (by omega)] at placed
        cases placed

theorem insert_eq_place (acceptable : Acceptable index.cloud.dimension vector)
    (room : index.size < greatestSize) :
    (index.insert vector).outcome = (index.place vector).outcome := by
  have accepted : requireAcceptable index.dimension vector = .ok () :=
    requireAcceptable_eq_ok_iff.mpr acceptable
  have roomy : requireRoom index.size 1 = .ok () :=
    requireRoom_eq_ok_iff.mpr (by omega)
  unfold Index.insert
  rw [Traced.outcome_bind, accepted, Traced.outcome_lift_refusal_ok, ok_bind,
    Traced.outcome_bind, roomy, Traced.outcome_lift_refusal_ok, ok_bind]

/-- A call either is refused or places what it was given. -/
theorem insert_outcome (index : Index σ) (vector : Coordinates) :
    (∃ refusal, (index.insert vector).outcome =
        .error (.refused refusal)) ∨
      Acceptable index.cloud.dimension vector ∧
        index.size < greatestSize ∧
        (index.insert vector).outcome = (index.place vector).outcome := by
  cases accepted : requireAcceptable index.dimension vector with
  | error refusal =>
      refine Or.inl ⟨refusal, ?_⟩
      unfold Index.insert
      rw [Traced.outcome_bind, accepted]
      rfl
  | ok _ =>
      cases roomy : requireRoom index.size 1 with
      | error refusal =>
          refine Or.inl ⟨refusal, ?_⟩
          unfold Index.insert
          rw [Traced.outcome_bind, accepted, Traced.outcome_lift_refusal_ok,
            ok_bind, Traced.outcome_bind, roomy]
          rfl
      | ok _ =>
          have acceptable := requireAcceptable_eq_ok_iff.mp accepted
          have room := requireRoom_eq_ok_iff.mp roomy
          exact Or.inr ⟨acceptable, by omega,
            insert_eq_place acceptable (by omega)⟩

theorem insertAll_outcome (index : Index σ) (vectors : List Coordinates) :
    (∃ refusal, (index.insertAll vectors).outcome =
        .error (.refused refusal)) ∨
      (∀ vector ∈ vectors, Acceptable index.cloud.dimension vector) ∧
        vectors.length ≤ greatestSize - index.size ∧
        (index.insertAll vectors).outcome =
          (placeAll vectors index).outcome.map fun next =>
            (index.size, next.size, next) := by
  unfold Index.insertAll
  rw [Traced.outcome_bind]
  cases accepted : requireAllAcceptable index.dimension vectors with
  | error refusal => exact Or.inl ⟨refusal, rfl⟩
  | ok _ =>
      rw [Traced.outcome_lift_refusal_ok, ok_bind, Traced.outcome_bind]
      cases roomy : requireRoom index.size vectors.length with
      | error refusal => exact Or.inl ⟨refusal, rfl⟩
      | ok _ =>
          refine Or.inr ⟨requireAllAcceptable_eq_ok_iff.mp accepted,
            requireRoom_eq_ok_iff.mp roomy, ?_⟩
          rw [Traced.outcome_lift_refusal_ok, ok_bind]
          dsimp only
          rw [Traced.outcome_bind]
          cases (placeAll vectors index).outcome <;> rfl

/-- A call preserves what placing a vector preserves, and has no faults if
there is a level for new points. -/
theorem apply_eq (preserved : PreservedByPlacing motive)
    (sound : index.Sound runs) (holds : motive index runs) (call : Call) :
    (∀ next, index.apply call = .ok next →
        next.links.table = index.links.table ∧
          ∃ runs', next.Sound runs' ∧ motive next runs') ∧
      (0 < index.links.table.count →
        ∃ next, index.apply call = .ok next) := by
  have unchanged : ∀ next,
      (Except.ok index : Except Fault (Index σ)) = .ok next →
        next.links.table = index.links.table ∧
          ∃ runs', next.Sound runs' ∧ motive next runs' := by
    intro next same
    cases same
    exact ⟨rfl, runs, sound, holds⟩
  cases call with
  | insert vector =>
      simp only [Index.apply]
      rcases index.insert_outcome vector with
        ⟨refusal, refused⟩ | ⟨acceptable, room, outcome⟩
      · rw [refused]
        exact ⟨unchanged, fun _ => ⟨index, rfl⟩⟩
      · rw [outcome]
        by_cases listed : 0 < index.links.table.count
        · obtain ⟨next, placed, gains, sound'⟩ :=
            sound.place acceptable room listed
          have holds' := preserved sound holds acceptable room gains sound'
          rw [placed]
          refine ⟨fun other applied => ?_, fun _ => ⟨next, rfl⟩⟩
          cases applied
          exact ⟨gains.table_eq, _, sound', holds'⟩
        · refine ⟨fun other applied => ?_, fun positive =>
            (listed positive).elim⟩
          rw [place_of_unlisted sound room (by omega)] at applied
          cases applied
  | insertAll vectors =>
      simp only [Index.apply]
      rcases index.insertAll_outcome vectors with
        ⟨refusal, refused⟩ | ⟨acceptable, room, outcome⟩
      · rw [refused]
        exact ⟨unchanged, fun _ => ⟨index, rfl⟩⟩
      · obtain ⟨partly, totally⟩ :=
          placeAll_eq preserved sound holds acceptable room
        rw [outcome]
        refine ⟨fun other applied => ?_, fun positive => ?_⟩
        · cases placed : (placeAll vectors index).outcome with
          | error failure =>
              rw [placed] at applied
              cases failure with
              | refused refusal => exact unchanged other applied
              | faulted fault => cases applied
          | ok next =>
              rw [placed] at applied
              cases applied
              exact partly next placed
        · obtain ⟨next, placed⟩ := totally positive
          rw [placed]
          exact ⟨next, rfl⟩

/-- A call has no faults if there is a level for new points. -/
theorem Sound.apply_eq (sound : index.Sound runs)
    (listed : 0 < index.links.table.count) (call : Call) :
    ∃ next runs', index.apply call = .ok next ∧ next.Sound runs' ∧
      next.links.table = index.links.table := by
  obtain ⟨partly, totally⟩ := Index.apply_eq (motive := fun _ _ => True)
    (fun _ _ _ _ _ _ => trivial) sound trivial call
  obtain ⟨next, applied⟩ := totally listed
  obtain ⟨table, runs', sound', _⟩ := partly next applied
  exact ⟨next, runs', applied, sound', table⟩

/-- Calls preserve what placing a vector preserves, and have no faults if
there is a level for new points. -/
theorem run_eq (preserved : PreservedByPlacing motive) {index : Index σ}
    {runs : Runs} (sound : index.Sound runs) (holds : motive index runs)
    (calls : List Call) :
    (∀ final, index.run calls = .ok final →
        ∃ runs', final.Sound runs' ∧ motive final runs') ∧
      (0 < index.links.table.count →
        ∃ final, index.run calls = .ok final) := by
  induction calls generalizing index runs with
  | nil =>
      refine ⟨fun final same => ?_, fun _ => ⟨index, rfl⟩⟩
      cases same
      exact ⟨runs, sound, holds⟩
  | cons call rest inductionHypothesis =>
      obtain ⟨partly, totally⟩ := apply_eq preserved sound holds call
      have unfolded : index.run (call :: rest) =
          index.apply call >>= fun next => next.run rest := rfl
      rw [unfolded]
      refine ⟨fun final ended => ?_, fun positive => ?_⟩
      · cases applied : index.apply call with
        | error fault =>
            rw [applied] at ended
            cases ended
        | ok next =>
            rw [applied] at ended
            obtain ⟨_, runs', sound', holds'⟩ := partly next applied
            exact (inductionHypothesis sound' holds').1 final ended
      · obtain ⟨next, applied⟩ := totally positive
        obtain ⟨table, runs', sound', holds'⟩ := partly next applied
        rw [applied]
        exact (inductionHypothesis sound' holds').2 (table ▸ positive)

/-- What holds of fresh indexes and is preserved by placing a vector holds of
every reachable index. -/
theorem Reachable.induction (preserved : PreservedByPlacing motive)
    (fresh : ∀ {start : Index σ} {runs : Runs}, start.IsFresh →
      motive start runs)
    (reachable : index.Reachable) :
    ∃ runs, index.Sound runs ∧ motive index runs := by
  obtain ⟨start, calls, isFresh, ran⟩ := reachable
  exact (run_eq preserved (isFresh.sound fun _ _ => []) (fresh isFresh)
    calls).1 index ran

theorem Reachable.sound (reachable : index.Reachable) :
    ∃ runs, index.Sound runs := by
  obtain ⟨runs, sound, _⟩ := reachable.induction
    (motive := fun _ _ => True) (fun _ _ _ _ _ _ => trivial)
    (fun _ => trivial)
  exact ⟨runs, sound⟩

end Index

end SmallWorld
