import SmallWorld.Journal

/-!
# Outcomes of traced computations

The outcome of a traced computation does not depend on what has been written
before.  These lemmas compute it from the outcomes of the parts.  Traced
computations obey the laws of sequences, the journal included.
-/

namespace SmallWorld

@[simp]
theorem ok_bind {ε α β : Type} (value : α) (next : α → Except ε β) :
    ((Except.ok value : Except ε α) >>= next) = next value :=
  rfl

theorem bind_eq_ok_iff {ε α β : Type} {first : Except ε α}
    {next : α → Except ε β} {result : β} :
    first >>= next = .ok result ↔
      ∃ value, first = .ok value ∧ next value = .ok result := by
  cases first with
  | error failure => exact iff_of_false nofun nofun
  | ok value => simp

theorem mapM_eq_ok {ε α β : Type} {action : α → Except ε β} {result : α → β}
    {values : List α}
    (succeeds : ∀ value ∈ values, action value = .ok (result value)) :
    values.mapM action = .ok (values.map result) := by
  induction values with
  | nil => rfl
  | cons value rest inductionHypothesis =>
      rw [List.mapM_cons, succeeds value List.mem_cons_self,
        inductionHypothesis
          (fun later member => succeeds later (List.mem_cons_of_mem _ member))]
      rfl

@[simp]
theorem lift_refusal_ok {α : Type} (value : α) :
    (liftM (Except.ok value : Except Refusal α) : Except Failure α) =
      .ok value :=
  rfl

@[simp]
theorem lift_refusal_error {α : Type} (refusal : Refusal) :
    (liftM (Except.error refusal : Except Refusal α) : Except Failure α) =
      .error (.refused refusal) :=
  rfl

@[simp]
theorem lift_fault_ok {α : Type} (value : α) :
    (liftM (Except.ok value : Except Fault α) : Except Failure α) =
      .ok value :=
  rfl

namespace Traced

variable {α β : Type}

@[simp]
theorem outcome_lift_failure (outcome : Except Failure α) :
    (liftM outcome : Traced α).outcome = outcome :=
  rfl

@[simp]
theorem outcome_lift_fault_ok (value : α) :
    (liftM (Except.ok value : Except Fault α) : Traced α).outcome =
      .ok value :=
  rfl

@[simp]
theorem outcome_lift_refusal_ok (value : α) :
    (liftM (Except.ok value : Except Refusal α) : Traced α).outcome =
      .ok value :=
  rfl

theorem outcome_lift_fault_eq_ok_iff {result : Except Fault α} {value : α} :
    (liftM result : Traced α).outcome = .ok value ↔ result = .ok value := by
  cases result with
  | error fault => exact iff_of_false nofun nofun
  | ok other => rw [outcome_lift_fault_ok, Except.ok.injEq, Except.ok.injEq]

theorem outcome_lift_refusal_eq_ok_iff {result : Except Refusal α}
    {value : α} :
    (liftM result : Traced α).outcome = .ok value ↔ result = .ok value := by
  cases result with
  | error refusal => exact iff_of_false nofun nofun
  | ok other =>
      rw [outcome_lift_refusal_ok, Except.ok.injEq, Except.ok.injEq]

private theorem outcome_mapM_loop {action : α → Traced β} {pure_ : α → β}
    (values : List α)
    (succeeds : ∀ value ∈ values, (action value).outcome = .ok (pure_ value))
    (earlier : List β) :
    (List.mapM.loop action values earlier).outcome =
      .ok (earlier.reverse ++ values.map pure_) := by
  induction values generalizing earlier with
  | nil => simp [List.mapM.loop]
  | cons value rest inductionHypothesis =>
      unfold List.mapM.loop
      rw [outcome_bind, succeeds value List.mem_cons_self, ok_bind,
        inductionHypothesis
          (fun later member => succeeds later (List.mem_cons_of_mem _ member))]
      simp

theorem outcome_mapM {action : α → Traced β} {result : α → β}
    {values : List α}
    (succeeds : ∀ value ∈ values, (action value).outcome = .ok (result value)) :
    (values.mapM action).outcome = .ok (values.map result) :=
  outcome_mapM_loop values succeeds []

private theorem andThen_pure (first : Traced α) :
    first.andThen (fun value => ofOutcome (.ok value)) = first := by
  obtain ⟨events, _ | value⟩ := first
  · rfl
  · simp [andThen, ofOutcome]

private theorem andThen_assoc {γ : Type} (first : Traced α)
    (next : α → Traced β) (last : β → Traced γ) :
    (first.andThen next).andThen last =
      first.andThen fun value => (next value).andThen last := by
  obtain ⟨events, _ | value⟩ := first
  · rfl
  · simp only [andThen]
    cases (next value).outcome with
    | error failure => rfl
    | ok _ => simp only [List.append_assoc]

instance : LawfulMonad Traced := LawfulMonad.mk' Traced
  andThen_pure
  (fun value next => by simp [pure, bind, andThen, ofOutcome])
  andThen_assoc

@[simp]
theorem outcome_map (result : α → β) (first : Traced α) :
    (result <$> first).outcome = first.outcome.map result := by
  rw [map_eq_pure_bind, outcome_bind]
  cases first.outcome <;> rfl

end Traced

end SmallWorld
