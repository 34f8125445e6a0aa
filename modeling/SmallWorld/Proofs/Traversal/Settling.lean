import Mathlib.Logic.Relation
import SmallWorld.Proofs.Journal
import SmallWorld.Traversal.Descent

/-!
# Where settling ends

A pass ends at a neighbour that is nearer than its start, or finds that there
is none (`Layer.Passes`).  So settling ends where no neighbour is nearer
(`Layer.Settles`).  That neighbours are mutual or lead nowhere in a circle is
not needed: what decreases is the distance.
-/

namespace SmallWorld

namespace Layer

variable {layer : Layer} {best next final : Hit} {neighbors : List PointId}
  {work : Work}

/-- What a pass over neighbours ends at: the best hit or a neighbour that is
nearer, such that no neighbour is nearer still. -/
structure Passes (layer : Layer) (best : Hit) (neighbors : List PointId)
    (next : Hit) : Prop where
  moved : next = best ∨ next.id ∈ neighbors ∧
    layer.distance next.id = .ok next.distance ∧
      next.distance < best.distance
  optimum : ∀ neighbor ∈ neighbors, ∃ distance,
    layer.distance neighbor = .ok distance ∧ ¬ distance < next.distance

theorem Passes.not_lt (passes : layer.Passes best neighbors next)
    {distance : Scalar} (far : ¬ distance < best.distance) :
    ¬ distance < next.distance := by
  intro nearer
  rcases passes.moved with rfl | ⟨_, _, less⟩
  · exact far nearer
  · exact far (Scalar.lt_trans nearer less)

theorem passes_of_nearest
    (passed : layer.nearest best neighbors = .ok next) :
    layer.Passes best neighbors next := by
  induction neighbors generalizing best with
  | nil =>
      cases passed
      exact ⟨Or.inl rfl, nofun⟩
  | cons neighbor rest inductionHypothesis =>
      rw [nearest, bind_eq_ok_iff] at passed
      obtain ⟨distance, measured, passed⟩ := passed
      split at passed
      · next nearer =>
          have passes := inductionHypothesis passed
          refine ⟨Or.inr ?_, List.forall_mem_cons.mpr
            ⟨⟨distance, measured, passes.not_lt (Scalar.lt_irrefl distance)⟩,
              passes.optimum⟩⟩
          rcases passes.moved with rfl | ⟨later, marked, less⟩
          · exact ⟨List.mem_cons_self, measured, nearer⟩
          · exact ⟨List.mem_cons_of_mem _ later, marked,
              Scalar.lt_trans less nearer⟩
      · next far =>
          have passes := inductionHypothesis passed
          exact ⟨passes.moved.imp_right fun ⟨later, others⟩ =>
              ⟨List.mem_cons_of_mem _ later, others⟩,
            List.forall_mem_cons.mpr
              ⟨⟨distance, measured, passes.not_lt far⟩, passes.optimum⟩⟩

/-- What settling ends at: the best hit, or a nearer one to which it leads,
such that no neighbour is nearer still. -/
structure Settles (layer : Layer) (best final : Hit) : Prop where
  path : Relation.ReflTransGen (fun id neighbor => ∃ neighbors,
    layer.neighbors id = .ok neighbors ∧ neighbor ∈ neighbors) best.id final.id
  moved : final = best ∨ layer.distance final.id = .ok final.distance ∧
    final.distance < best.distance
  optimum : ∃ neighbors, layer.neighbors final.id = .ok neighbors ∧
    ∀ neighbor ∈ neighbors, ∃ distance,
      layer.distance neighbor = .ok distance ∧ ¬ distance < final.distance

theorem settles_of_settle (settled : layer.settle best = .ok (final, work)) :
    layer.Settles best final := by
  fun_induction layer.settle best generalizing work
  case case4 neighbors listed _ next passed nearer last further ended
      inductionHypothesis =>
    cases settled
    have settles := inductionHypothesis ended
    rcases (passes_of_nearest passed).moved with rfl | ⟨member, measured, _⟩
    · exact absurd nearer (Scalar.lt_irrefl _)
    · refine ⟨settles.path.head ⟨neighbors, listed, member⟩, Or.inr ?_,
        settles.optimum⟩
      rcases settles.moved with rfl | ⟨marked, less⟩
      · exact ⟨measured, nearer⟩
      · exact ⟨marked, Scalar.lt_trans less nearer⟩
  case case5 neighbors listed _ next passed far =>
    cases settled
    have passes := passes_of_nearest passed
    obtain rfl : next = final := passes.moved.resolve_right
      fun ⟨_, _, nearer⟩ => far nearer
    exact ⟨.refl, Or.inl rfl, neighbors, listed, passes.optimum⟩
  all_goals cases settled

end Layer

end SmallWorld
