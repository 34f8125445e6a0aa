import SmallWorld.Index.InPlace
import SmallWorld.Proofs.Index.Outline

/-!
# Insertion of several vectors

Vectors that are inserted together are inserted one by one, or not at all.
All checks are made before the first of them is stored, and after the checks
nothing can fail: the number of a vector is also that of its block, and there
is room for all of them.  So even an insertion in place never stops halfway
(`Reachable.insertAll_allOrNothing`).
-/

namespace SmallWorld

def Fits (dimension : Nat) (vector : Coordinates) : Prop :=
  vector.length = dimension ∧ requireInRange vector = .ok ()

theorem requireAcceptable_eq_ok_iff_fits {dimension : Nat}
    {vector : Coordinates} :
    requireAcceptable dimension vector = .ok () ↔ Fits dimension vector := by
  rw [requireAcceptable, requireDimension, Fits]
  by_cases length : vector.length = dimension
  · rw [if_pos length, ok_bind]
    exact (and_iff_right length).symm
  · rw [if_neg length]
    exact iff_of_false nofun fun fits => length fits.1

theorem fits_iff_acceptable {dimension : Nat} {vector : Coordinates} :
    Fits dimension vector ↔ Acceptable dimension vector :=
  requireAcceptable_eq_ok_iff_fits.symm.trans requireAcceptable_eq_ok_iff

/-- Whether a vector is refused for the given reason: first for its dimension,
then for its components. -/
def Misfits (dimension : Nat) (vector : Coordinates) (refusal : Refusal) :
    Prop :=
  if vector.length = dimension then
    requireInRange vector = .error refusal
  else
    refusal = .dimensionMismatch dimension vector.length

theorem requireAcceptable_eq_error_iff {dimension : Nat}
    {vector : Coordinates} {refusal : Refusal} :
    requireAcceptable dimension vector = .error refusal ↔
      Misfits dimension vector refusal := by
  rw [requireAcceptable, requireDimension, Misfits]
  by_cases length : vector.length = dimension
  · rw [if_pos length, if_pos length, ok_bind]
  · rw [if_neg length, if_neg length]
    change (Except.error _ : Except Refusal Unit) = .error refusal ↔ _
    rw [Except.error.injEq]
    exact eq_comm

/-- Vectors are refused together for the first one that does not fit. -/
theorem exists_misfits_of_requireAllAcceptable {dimension : Nat}
    {vectors : List Coordinates} {refusal : Refusal}
    (refused : requireAllAcceptable dimension vectors = .error refusal) :
    ∃ before vector after, vectors = before ++ vector :: after ∧
      (∀ earlier ∈ before, Fits dimension earlier) ∧
      Misfits dimension vector refusal := by
  induction vectors with
  | nil => cases refused
  | cons vector rest inductionHypothesis =>
      rw [requireAllAcceptable] at refused
      cases accepted : requireAcceptable dimension vector with
      | error first =>
          rw [accepted] at refused
          cases refused
          exact ⟨[], vector, rest, rfl, List.forall_mem_nil _,
            requireAcceptable_eq_error_iff.mp accepted⟩
      | ok _ =>
          rw [accepted, ok_bind] at refused
          obtain ⟨before, later, after, split, fits, misfits⟩ :=
            inductionHypothesis refused
          refine ⟨vector :: before, later, after, ?_, ?_, misfits⟩
          · rw [split, List.cons_append]
          · exact List.forall_mem_cons.mpr
              ⟨requireAcceptable_eq_ok_iff_fits.mp accepted, fits⟩

namespace Changing

variable {σ α : Type}

@[simp]
theorem run_attempt_ok (value : α) (index : Index σ) :
    (attempt (.ok value)).run index = .ok value index :=
  rfl

@[simp]
theorem run_attempt_error (failure : Failure) (index : Index σ) :
    (attempt (.error failure) : Changing σ α).run index =
      .error failure index :=
  rfl

variable [UniformSource σ] {index next : Index σ} {id : PointId}
  {vector : Coordinates}

/-- A vector that can be placed can be placed in place. -/
theorem place_eq (placed : (index.place vector).outcome = .ok (id, next)) :
    (place vector).run index = .ok id next := by
  simp only [Index.place, Traced.outcome_bind, bind_eq_ok_iff,
    Traced.outcome_lift_refusal_eq_ok_iff, Traced.outcome_lift_failure,
    Traced.outcome_record] at placed
  obtain ⟨⟨id', cloud⟩, pushed, ⟨_, links⟩, allocated, _, _, placed⟩ := placed
  simp only [place, EStateM.run_bind, EStateM.run_get, EStateM.run_modify,
    pushed, lift_refusal_ok, run_attempt_ok, allocated]
  cases entry : index.entryPoint with
  | none =>
      rw [entry] at placed
      cases placed
      rfl
  | some entryPoint =>
      rw [entry] at placed
      simp only [Traced.outcome_bind, bind_eq_ok_iff,
        Traced.outcome_lift_fault_eq_ok_iff] at placed
      obtain ⟨distance, measured, ⟨start, work⟩, descended, links', connected,
        placed⟩ := placed
      simp only [link, EStateM.run_bind, EStateM.run_get, EStateM.run_modify,
        measured, descended, connected, lift_fault_ok, run_attempt_ok]
      split at placed
      · next higher =>
          cases placed
          rw [if_pos higher]
          rfl
      · next lower =>
          cases placed
          rw [if_neg lower]
          rfl

end Changing

namespace Index

variable {σ : Type} [UniformSource σ]

def insertEach :
    List Coordinates → Index σ → Traced (List PointId × Index σ)
  | [], index => pure ([], index)
  | vector :: rest, index => do
      let (id, index) ← index.insert vector
      let (ids, index) ← insertEach rest index
      pure (id :: ids, index)

variable {index : Index σ} {runs : Runs} {vectors : List Coordinates}

/-- All vectors fit, and there is a number for each of them. -/
def Admits (index : Index σ) (vectors : List Coordinates) : Prop :=
  (∀ vector ∈ vectors, Fits index.dimension vector) ∧
    index.size + vectors.length ≤ greatestSize

/-- The reason for which vectors are refused: that of the first one that does
not fit, or that there are too many. -/
def RefusedFor (index : Index σ) (vectors : List Coordinates)
    (refusal : Refusal) : Prop :=
  (∃ before vector after, vectors = before ++ vector :: after ∧
      (∀ earlier ∈ before, Fits index.dimension earlier) ∧
      Misfits index.dimension vector refusal) ∨
    (∀ vector ∈ vectors, Fits index.dimension vector) ∧
      greatestSize < index.size + vectors.length ∧
      refusal = .full greatestSize

/-- Vectors that fit are inserted without a failure, be it together, by separate
calls or in place, and each way leads to the same index. -/
theorem Sound.placeAll_together (sound : index.Sound runs)
    (listed : 0 < index.links.table.count)
    (fits : ∀ vector ∈ vectors, Fits index.dimension vector)
    (room : vectors.length ≤ greatestSize - index.size) :
    ∃ next runs', (placeAll vectors index).outcome = .ok next ∧
      (insertEach vectors index).outcome =
        .ok (List.range' index.size vectors.length, next) ∧
      (Changing.placeAll vectors).run index = .ok () next ∧
      next.size = index.size + vectors.length ∧
      next.links.table = index.links.table ∧ next.Sound runs' := by
  induction vectors generalizing index runs with
  | nil => exact ⟨index, runs, rfl, rfl, rfl, rfl, rfl, sound⟩
  | cons vector rest inductionHypothesis =>
      rw [List.length_cons] at room
      have acceptable : Acceptable index.cloud.dimension vector :=
        fits_iff_acceptable.mp (fits vector List.mem_cons_self)
      have here : index.size < greatestSize := by omega
      obtain ⟨first, placed, gains, sound'⟩ :=
        sound.place acceptable here listed
      have size := gains.size_eq
      have dimension : first.dimension = index.dimension := by
        unfold Index.dimension
        rw [gains.cloud_eq]
      obtain ⟨next, runs', together, separately, inPlace, count, table,
          nextSound⟩ :=
        inductionHypothesis sound' (gains.table_eq ▸ listed)
          (fun later member => dimension ▸ fits later
            (List.mem_cons_of_mem _ member))
          (by omega)
      refine ⟨next, runs', ?_, ?_, ?_, ?_, ?_, nextSound⟩
      · simp only [placeAll, Traced.outcome_bind, placed, ok_bind, together]
      · simp only [insertEach, Traced.outcome_bind,
          insert_eq_place acceptable here, placed, ok_bind, separately,
          Traced.outcome_pure]
        rw [size, List.length_cons, List.range'_succ]
      · simp only [Changing.placeAll, EStateM.run_bind,
          Changing.place_eq placed, inPlace]
      · rw [count, size, List.length_cons]
        omega
      · rw [table, gains.table_eq]

theorem Sound.insertAll_of_admits (sound : index.Sound runs)
    (listed : 0 < index.links.table.count) (admits : index.Admits vectors) :
    ∃ next runs', (index.insertAll vectors).outcome =
        .ok (index.size, index.size + vectors.length, next) ∧
      (insertEach vectors index).outcome =
        .ok (List.range' index.size vectors.length, next) ∧
      (Changing.insertAll vectors).run index =
        .ok (index.size, index.size + vectors.length) next ∧
      next.size = index.size + vectors.length ∧
      next.links.table = index.links.table ∧ next.Sound runs' := by
  obtain ⟨fits, room⟩ := admits
  have little : vectors.length ≤ greatestSize - index.size := by omega
  have accepted : requireAllAcceptable index.dimension vectors = .ok () :=
    requireAllAcceptable_eq_ok_iff.mpr fun vector member =>
      fits_iff_acceptable.mp (fits vector member)
  have roomy : requireRoom index.size vectors.length = .ok () :=
    requireRoom_eq_ok_iff.mpr little
  obtain ⟨next, runs', together, separately, inPlace, size, table, sound'⟩ :=
    sound.placeAll_together listed fits little
  refine ⟨next, runs', ?_, separately, ?_, size, table, sound'⟩
  · simp only [Index.insertAll, Traced.outcome_bind, accepted, roomy,
      Traced.outcome_lift_refusal_ok, ok_bind, together, Traced.outcome_pure,
      size]
  · simp only [Changing.insertAll, EStateM.run_bind, EStateM.run_get,
      accepted, roomy, lift_refusal_ok, Changing.run_attempt_ok, inPlace,
      EStateM.run_pure, size]

/-- Vectors that are not admitted are refused before anything is changed. -/
theorem Sound.insertAll_of_not_admits (sound : index.Sound runs)
    (refused : ¬ index.Admits vectors) :
    ∃ refusal, index.RefusedFor vectors refusal ∧
      (index.insertAll vectors).outcome = .error (.refused refusal) ∧
      (Changing.insertAll vectors).run index =
        .error (.refused refusal) index := by
  cases accepted : requireAllAcceptable index.dimension vectors with
  | error refusal =>
      refine ⟨refusal, Or.inl
        (exists_misfits_of_requireAllAcceptable accepted), ?_, ?_⟩
      · rw [Index.insertAll, Traced.outcome_bind, accepted]
        rfl
      · simp only [Changing.insertAll, EStateM.run_bind, EStateM.run_get,
          accepted, lift_refusal_error, Changing.run_attempt_error]
  | ok _ =>
      have fits : ∀ vector ∈ vectors, Fits index.dimension vector :=
        fun vector member => fits_iff_acceptable.mpr
          (requireAllAcceptable_eq_ok_iff.mp accepted vector member)
      have crowded : greatestSize < index.size + vectors.length :=
        not_le.mp fun room => refused ⟨fits, room⟩
      have used : index.size ≤ greatestSize :=
        sound.size_eq.trans_le sound.represents.laid.size_le
      have full : requireRoom index.size vectors.length =
          .error (.full greatestSize) := if_pos (by omega)
      refine ⟨.full greatestSize, Or.inr ⟨fits, crowded, rfl⟩, ?_, ?_⟩
      · simp only [Index.insertAll, Traced.outcome_bind, accepted, full,
          Traced.outcome_lift_refusal_ok, ok_bind]
        rfl
      · simp only [Changing.insertAll, EStateM.run_bind, EStateM.run_get,
          accepted, full, lift_refusal_ok, lift_refusal_error,
          Changing.run_attempt_ok, Changing.run_attempt_error]

/-- Vectors that are inserted together lead to the index that separate calls
lead to, and if they are refused nothing has been changed. -/
structure AllOrNothing (index : Index σ) (vectors : List Coordinates) :
    Prop where
  exists_ok_iff : (∃ result, (index.insertAll vectors).outcome = .ok result) ↔
    index.Admits vectors
  /-- The numbers are those after the ones given before. -/
  of_ok : ∀ {first stop : PointId} {next : Index σ},
    (index.insertAll vectors).outcome = .ok (first, stop, next) →
      first = index.size ∧ stop = index.size + vectors.length ∧
      (insertEach vectors index).outcome =
        .ok (List.range' first vectors.length, next) ∧
      (Changing.insertAll vectors).run index = .ok (first, stop) next
  /-- Not even an insertion in place leaves anything behind. -/
  of_error : ∀ {failure : Failure},
    (index.insertAll vectors).outcome = .error failure →
      (∃ refusal, failure = .refused refusal ∧
        index.RefusedFor vectors refusal) ∧
      (Changing.insertAll vectors).run index = .error failure index

/-- Insertion of several vectors is atomic in every index that calls lead to:
it succeeds exactly if all of them fit and there is room, and then it amounts
to separate insertions, in the order of the list.  Otherwise the refusal is
that of the first vector that does not fit, or else that of a full index, and
nothing has been changed. -/
theorem Reachable.insertAll_allOrNothing (reachable : index.Reachable)
    (listed : 0 < index.links.table.count) (vectors : List Coordinates) :
    index.AllOrNothing vectors := by
  obtain ⟨runs, sound⟩ := reachable.sound
  by_cases admits : index.Admits vectors
  · obtain ⟨next, _, together, separately, inPlace, _⟩ :=
      sound.insertAll_of_admits listed admits
    refine ⟨iff_of_true ⟨_, together⟩ admits, ?_, ?_⟩
    · intro first stop other inserted
      rw [together] at inserted
      cases inserted
      exact ⟨rfl, rfl, separately, inPlace⟩
    · intro failure failed
      rw [together] at failed
      cases failed
  · obtain ⟨refusal, refusedFor, together, inPlace⟩ :=
      sound.insertAll_of_not_admits admits
    refine ⟨iff_of_false ?_ admits, ?_, ?_⟩
    · rintro ⟨result, inserted⟩
      rw [together] at inserted
      cases inserted
    · intro first stop other inserted
      rw [together] at inserted
      cases inserted
    · intro failure failed
      rw [together] at failed
      cases failed
      exact ⟨⟨refusal, rfl, refusedFor⟩, inPlace⟩

/-- The points of the line are inserted once more, unless a vector that does
not fit comes with them. -/
theorem line_allOrNothing : ∃ line : Index (Cycle Float), line.Reachable ∧
    0 < line.links.table.count ∧ line.size = 6 ∧
    line.AllOrNothing linePoints ∧ line.AllOrNothing (linePoints ++ [[]]) := by
  obtain ⟨line, isLine⟩ := exists_isLine
  exact ⟨line, isLine.reachable, isLine.count_pos, isLine.size_eq,
    isLine.reachable.insertAll_allOrNothing isLine.count_pos _,
    isLine.reachable.insertAll_allOrNothing isLine.count_pos _⟩

end Index

end SmallWorld
