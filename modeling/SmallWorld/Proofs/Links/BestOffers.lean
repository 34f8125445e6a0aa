import SmallWorld.Index.History
import SmallWorld.Proofs.Links.Placement

/-!
# What runs keep of their offers

A run forgets most of what it is offered, but never the best of it.  The first
candidate of a selection is always selected, so a run that selects its
neighbours anew keeps the nearest of them, and of several nearest ones the
lowest (`Distances.exists_le_offerTo`).  So from one offer to the next a run
*recalls* all earlier ones: for each of them it lists a neighbour that is as
good (`Runs.Recalls`).
-/

namespace SmallWorld

namespace Distances

def hit (apart : Distances) (owner id : PointId) : Hit where
  distance := apart owner id
  id

variable {apart : Distances} {owner incoming known : PointId} {capacity : Nat}
  {backfill : Bool} {run : List PointId}

/-- The nearest of some points is selected from them. -/
theorem exists_le_select (nonzero : capacity ≠ 0) {ids : List PointId}
    (ownerAbsent : owner ∉ ids) (listed : known ∈ ids) :
    ∃ kept ∈ apart.select owner (apart.ranked owner ids) capacity backfill,
      (apart.hit owner kept).le (apart.hit owner known) = true := by
  have ordered := ordered_ranked apart owner ids
  have candidate : apart.hit owner known ∈ apart.ranked owner ids :=
    mem_ranked.mpr ⟨listed, rfl⟩
  have selected : (apart.select owner (apart.ranked owner ids) capacity
      backfill).head? = (others owner (apart.ranked owner ids)).head? :=
    head?_select nonzero _
  cases found : apart.ranked owner ids with
  | nil =>
      rw [found] at candidate
      cases candidate
  | cons first rest =>
      obtain ⟨firstListed, firstMarked⟩ : first.id ∈ ids ∧
          first.distance = apart owner first.id :=
        mem_ranked.mp (found ▸ List.mem_cons_self)
      have other : first.id ≠ owner := fun same =>
        ownerAbsent (same ▸ firstListed)
      rw [found, others_cons_of_ne other, List.head?_cons] at selected
      refine ⟨first.id, List.mem_of_head? selected, ?_⟩
      have same : apart.hit owner first.id = first :=
        congrArg (Hit.mk · first.id) firstMarked.symm
      rw [same]
      exact Hit.head_le (found ▸ ordered) (found ▸ candidate)

/-- Whatever a run lists or is offered, it lists something as good
afterwards. -/
theorem exists_le_offerTo (nonzero : capacity ≠ 0) (ownerAbsent : owner ∉ run)
    (other : known ≠ owner) (offered : known ∈ run ∨ known = incoming) :
    ∃ kept ∈ apart.offerTo owner incoming capacity backfill run,
      (apart.hit owner kept).le (apart.hit owner known) = true := by
  unfold offerTo
  split
  · next unchanged =>
      refine ⟨known, ?_, Hit.le_refl _⟩
      rcases offered with old | rfl
      · exact old
      · exact unchanged.resolve_left fun same => other same.symm
  · next new =>
      have listed : known ∈ run ++ [incoming] := by
        simpa using offered
      split
      · exact ⟨known, listed, Hit.le_refl _⟩
      · apply exists_le_select nonzero _ listed
        rw [List.mem_append, List.mem_singleton]
        exact not_or.mpr ⟨ownerAbsent, (not_or.mp new).1⟩

end Distances

namespace Runs

/-- The runs list what they have been offered, or something as good, and
nothing else. -/
structure Recalls (runs : Runs) (apart : Distances)
    (onLevel : Nat → PointId → Prop) (offers : List Offer) : Prop where
  inside : ∀ offer ∈ offers,
    onLevel offer.level offer.owner ∧ onLevel offer.level offer.neighbor
  best : ∀ offer ∈ offers, offer.neighbor ≠ offer.owner →
    ∃ kept ∈ runs offer.owner offer.level,
      (apart.hit offer.owner kept).le (apart.hit offer.owner offer.neighbor) =
        true
  offered : ∀ {id level neighbor}, onLevel level id →
    neighbor ∈ runs id level → ⟨id, neighbor, level⟩ ∈ offers

variable {runs : Runs} {apart : Distances} {onLevel : Nat → PointId → Prop}
  {offers : List Offer} {capacityAt : Nat → Nat} {level : Nat}
  {id owner neighbor : PointId}

/-- A run that recalls its offers recalls a further one as well. -/
theorem Recalls.offer (recalls : runs.Recalls apart onLevel offers)
    (proper : runs.Proper onLevel) (room : capacityAt level ≠ 0)
    (ownerInside : onLevel level owner)
    (neighborInside : onLevel level neighbor) :
    (runs.offer apart capacityAt owner neighbor level).Recalls apart onLevel
      (offers ++ [⟨owner, neighbor, level⟩]) := by
  have ownerAbsent : owner ∉ runs owner level := fun member =>
    proper.ne ownerInside member rfl
  constructor
  · intro offer member
    rcases List.mem_append.mp member with old | new
    · exact recalls.inside offer old
    · rw [List.mem_singleton.mp new]
      exact ⟨ownerInside, neighborInside⟩
  · intro offer member other
    rcases List.mem_append.mp member with old | new
    · obtain ⟨kept, listed, nearer⟩ := recalls.best offer old other
      -- An earlier offer is at risk only where the run is the same.
      by_cases same : owner = offer.owner ∧ level = offer.level
      · obtain ⟨rfl, rfl⟩ := same
        have different : kept ≠ offer.owner := fun same =>
          ownerAbsent (same ▸ listed)
        rw [Runs.offer, set_self]
        obtain ⟨kept', listed', nearer'⟩ := Distances.exists_le_offerTo room
          ownerAbsent different (Or.inl listed)
        exact ⟨kept', listed', Hit.le_trans nearer' nearer⟩
      · refine ⟨kept, ?_, nearer⟩
        rw [Runs.offer, set_of_ne _ (not_and_or.mp same)]
        exact listed
    · rw [List.mem_singleton.mp new] at other ⊢
      rw [Runs.offer, set_self]
      exact Distances.exists_le_offerTo room ownerAbsent other (Or.inr rfl)
  · intro id level' member inside listed
    rw [Runs.offer] at listed
    by_cases same : owner = id ∧ level = level'
    · obtain ⟨rfl, rfl⟩ := same
      rw [set_self] at listed
      rcases Distances.mem_of_mem_offerTo listed with old | ⟨rfl, _⟩
      · exact List.mem_append_left _ (recalls.offered inside old)
      · exact List.mem_concat_self
    · rw [set_of_ne _ (not_and_or.mp same)] at listed
      exact List.mem_append_left _ (recalls.offered inside listed)

theorem Recalls.connect (room : capacityAt level ≠ 0)
    (idInside : onLevel level id) {neighbors : List PointId}
    (neighborsInside : ∀ neighbor ∈ neighbors, onLevel level neighbor)
    {runs : Runs} {offers : List Offer} (proper : runs.Proper onLevel)
    (recalls : runs.Recalls apart onLevel offers) :
    (runs.connect apart capacityAt id level neighbors).Recalls apart onLevel
      (offers ++ Offer.between id level neighbors) := by
  induction neighbors generalizing runs offers with
  | nil =>
      rw [Offer.between, List.flatMap_nil, List.append_nil]
      exact recalls
  | cons neighbor rest inductionHypothesis =>
      have here := neighborsInside neighbor List.mem_cons_self
      have there : (runs.offer apart capacityAt id neighbor level).Proper
          onLevel := proper.offer capacityAt idInside here
      have further := inductionHypothesis
        (fun later member => neighborsInside later
          (List.mem_cons_of_mem _ member))
        (there.offer capacityAt here idInside)
        ((recalls.offer proper room idInside here).offer there room here
          idInside)
      rw [List.append_assoc, List.append_assoc] at further
      exact further

end Runs

end SmallWorld
