import SmallWorld.Index.History
import SmallWorld.Proofs.Journal

/-!
# Notes change nothing

Inserting points with notes leads to the same indexes, by way of the same
journal, as inserting them without (`Noted.value_place`, `Noted.value_run`).
The notes of `Noted.connect` are known in full: each link is an offer to
either end (`Noted.connect_eq`).
-/

namespace SmallWorld

namespace Noted

section Links

variable {cloud : Cloud} {width : Nat} {id : PointId} {vector : Coordinates}
  {level : Nat} {start : Hit} {noted : Noted Links}

theorem connect_eq (neighbors : List PointId) (noted : Noted Links) :
    noted.connect cloud id level neighbors =
      (Noted.mk · (noted.offers ++ Offer.between id level neighbors)) <$>
        noted.value.connect cloud id level neighbors := by
  induction neighbors generalizing noted with
  | nil => simp [connect, Links.connect, Offer.between]
  | cons neighbor rest inductionHypothesis =>
      simp only [connect, Links.connect, offer, inductionHypothesis, map_bind,
        bind_assoc, pure_bind, Offer.between, List.flatMap_cons,
        List.append_assoc, List.cons_append, List.nil_append]

theorem value_connect (neighbors : List PointId) :
    value <$> noted.connect cloud id level neighbors =
      noted.value.connect cloud id level neighbors := by
  rw [connect_eq, Functor.map_map]
  exact id_map _

theorem value_connectLevel :
    (fun result => (result.1, result.2.value)) <$>
        noted.connectLevel cloud width id vector level start =
      noted.value.connectLevel cloud width id vector level start := by
  simp only [connectLevel, Links.connectLevel, map_bind, map_pure,
    ← value_connect, bind_map_left]

theorem value_connectLevels (level : Nat) (start : Hit)
    (noted : Noted Links) :
    value <$> connectLevels cloud width id vector level start noted =
      noted.value.connectLevels cloud width id vector level start := by
  induction level generalizing start noted with
  | zero =>
      simp only [connectLevels, Links.connectLevels, map_bind, map_pure,
        ← value_connectLevel, bind_map_left]
  | succ level inductionHypothesis =>
      simp only [connectLevels, Links.connectLevels, map_bind,
        inductionHypothesis, ← value_connectLevel, bind_map_left]

end Links

section Index

variable {σ : Type} {noted : Noted (Index σ)}

theorem value_settleCall (outcome : Except Failure (Noted (Index σ))) :
    (noted.settleCall outcome).map value =
      noted.value.settleCall (outcome.map value) := by
  cases outcome with
  | ok next => rfl
  | error failure =>
      cases failure with
      | refused refusal => rfl
      | faulted fault => rfl

variable [UniformSource σ]

/-- Placing a vector with notes is placing it. -/
theorem value_place (noted : Noted (Index σ)) (vector : Coordinates) :
    (fun result => (result.1, result.2.value)) <$> noted.place vector =
      noted.value.place vector := by
  simp only [place, Index.place, map_bind]
  apply bind_congr
  rintro ⟨id, cloud⟩
  apply bind_congr
  rintro ⟨_, links⟩
  apply bind_congr
  intro _
  cases noted.value.entryPoint with
  | none => simp only [map_bind, map_pure]
  | some entryPoint =>
      simp only [map_bind]
      apply bind_congr
      intro distance
      apply bind_congr
      rintro ⟨start, _⟩
      have linked : ∀ width top, value <$>
          connectLevels cloud width id vector top start ⟨links, noted.offers⟩ =
            links.connectLevels cloud width id vector top start :=
        fun _ top => value_connectLevels top start ⟨links, noted.offers⟩
      simp only [← linked, bind_map_left]
      apply bind_congr
      rintro ⟨links', offers⟩
      split
      · simp only [map_bind, map_pure]
      · simp only [map_pure]

theorem value_insert (vector : Coordinates) :
    (fun result => (result.1, result.2.value)) <$> noted.insert vector =
      noted.value.insert vector := by
  simp only [insert, Index.insert, map_bind, value_place]

theorem value_placeAll (vectors : List Coordinates)
    (noted : Noted (Index σ)) :
    value <$> placeAll vectors noted =
      Index.placeAll vectors noted.value := by
  induction vectors generalizing noted with
  | nil => rfl
  | cons vector rest inductionHypothesis =>
      simp only [placeAll, Index.placeAll, map_bind, inductionHypothesis,
        ← value_place, bind_map_left]

theorem value_insertAll (vectors : List Coordinates) :
    (fun result => (result.1, result.2.1, result.2.2.value)) <$>
        noted.insertAll vectors =
      noted.value.insertAll vectors := by
  simp only [insertAll, Index.insertAll, map_bind, map_pure,
    ← value_placeAll, bind_map_left]

theorem value_apply (call : Call) :
    (noted.apply call).map value = noted.value.apply call := by
  cases call with
  | insert vector =>
      rw [apply, Index.apply, value_settleCall, ← value_insert,
        Traced.outcome_map]
      cases (noted.insert vector).outcome <;> rfl
  | insertAll vectors =>
      rw [apply, Index.apply, value_settleCall, ← value_insertAll,
        Traced.outcome_map]
      cases (noted.insertAll vectors).outcome <;> rfl

/-- Calls with notes lead where they lead without. -/
theorem value_run (calls : List Call) (noted : Noted (Index σ)) :
    (noted.run calls).map value = noted.value.run calls := by
  induction calls generalizing noted with
  | nil => rfl
  | cons call rest inductionHypothesis =>
      rw [run, Index.run, ← value_apply]
      cases noted.apply call with
      | error fault => rfl
      | ok next => exact inductionHypothesis next

/-- Calls that go through without notes go through with them. -/
theorem exists_run (noted : Noted (Index σ)) {calls : List Call}
    {final : Index σ}
    (ran : noted.value.run calls = .ok final) :
    ∃ offers, noted.run calls = .ok ⟨final, offers⟩ := by
  rw [← value_run] at ran
  cases done : noted.run calls with
  | error fault =>
      rw [done] at ran
      cases ran
  | ok next =>
      rw [done] at ran
      cases ran
      exact ⟨next.offers, rfl⟩

end Index

end Noted

end SmallWorld
