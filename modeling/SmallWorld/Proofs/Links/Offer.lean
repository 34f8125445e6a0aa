import SmallWorld.Index.Insertion
import SmallWorld.Proofs.Hit
import SmallWorld.Proofs.Journal
import SmallWorld.Proofs.Links.Runs
import SmallWorld.Proofs.Selection

/-!
# Offering neighbours

An offer changes one run: the neighbour is appended while there is room, and
otherwise the run selects its neighbours anew.  `Represents.offer_eq` says
that this is what happens to the slots, and that it always succeeds.

Runs are *proper* when they list different other points that reach their
level.  Offers of such points keep them proper.
-/

namespace SmallWorld

/-- Points as hits for an owner, nearest first. -/
def Distances.ranked (apart : Distances) (owner : PointId)
    (ids : List PointId) : List Hit :=
  Hit.arranged (ids.map fun id => { distance := apart owner id, id })

def Distances.offerTo (apart : Distances) (owner incoming : PointId)
    (capacity : Nat) (backfill : Bool) (run : List PointId) : List PointId :=
  if owner = incoming ∨ incoming ∈ run then
    run
  else if run.length < capacity then
    run ++ [incoming]
  else
    apart.select owner (apart.ranked owner (run ++ [incoming])) capacity
      backfill

namespace Runs

def offer (runs : Runs) (apart : Distances) (capacity : Nat → Nat)
    (owner neighbor : PointId) (level : Nat) : Runs :=
  runs.set owner level
    (apart.offerTo owner neighbor (capacity level) (level == 0)
      (runs owner level))

def connect (runs : Runs) (apart : Distances) (capacity : Nat → Nat)
    (id : PointId) (level : Nat) : List PointId → Runs
  | [] => runs
  | neighbor :: rest =>
      ((runs.offer apart capacity id neighbor level).offer apart capacity
        neighbor id level).connect apart capacity id level rest

theorem set_eq_self (runs : Runs) (id : PointId) (level : Nat) :
    runs.set id level (runs id level) = runs := by
  funext other level'
  unfold set
  split
  · next same => rw [same.1, same.2]
  · rfl

/-- The runs list different other points that reach their level. -/
structure Proper (runs : Runs) (onLevel : Nat → PointId → Prop) : Prop where
  nodup : ∀ {id level}, onLevel level id → (runs id level).Nodup
  ne : ∀ {id level neighbor}, onLevel level id →
    neighbor ∈ runs id level → neighbor ≠ id
  reaches : ∀ {id level neighbor}, onLevel level id →
    neighbor ∈ runs id level → onLevel level neighbor

end Runs

variable {apart : Distances} {owner incoming : PointId} {capacity : Nat}
  {backfill : Bool} {run : List PointId}

namespace Distances

theorem sort_eq_ranked (apart : Distances) (owner : PointId)
    (ids : List PointId) :
    Hit.sort (ids.map fun id => { distance := apart owner id, id }) =
      apart.ranked owner ids :=
  Hit.sort_eq_arranged _

theorem ranked_eq_of_perm (apart : Distances) (owner : PointId)
    {ids ids' : List PointId} (perm : ids.Perm ids') :
    apart.ranked owner ids = apart.ranked owner ids' := by
  rw [← sort_eq_ranked, ← sort_eq_ranked]
  exact Hit.sort_eq_of_perm (perm.map _)

theorem ranked_map_id_perm (ids : List PointId) :
    ((apart.ranked owner ids).map Hit.id).Perm ids := by
  refine ((Hit.arranged_perm _).map Hit.id).trans (List.Perm.of_eq ?_)
  rw [List.map_map]
  exact List.map_id ids

theorem ordered_ranked (apart : Distances) (owner : PointId)
    (ids : List PointId) : Hit.Ordered (apart.ranked owner ids) := by
  rw [← sort_eq_ranked]
  exact Hit.ordered_sort _

theorem mem_ranked {ids : List PointId} {hit : Hit} :
    hit ∈ apart.ranked owner ids ↔
      hit.id ∈ ids ∧ hit.distance = apart owner hit.id := by
  rw [ranked, (Hit.arranged_perm _).mem_iff, List.mem_map]
  constructor
  · rintro ⟨id, member, rfl⟩
    exact ⟨member, rfl⟩
  · rintro ⟨member, marked⟩
    exact ⟨hit.id, member, congrArg (Hit.mk · hit.id) marked.symm⟩

theorem id_mem_of_mem_ranked {ids : List PointId} {hit : Hit}
    (listed : hit ∈ apart.ranked owner ids) : hit.id ∈ ids :=
  (mem_ranked.mp listed).1

/-- An offer is listed at most, and nothing else is new. -/
theorem mem_of_mem_offerTo {neighbor : PointId}
    (member : neighbor ∈ apart.offerTo owner incoming capacity backfill run) :
    neighbor ∈ run ∨ neighbor = incoming ∧ owner ≠ incoming := by
  unfold offerTo at member
  split at member
  · exact Or.inl member
  · next new =>
      obtain ⟨other, _⟩ := not_or.mp new
      split at member
      · rcases List.mem_append.mp member with old | added
        · exact Or.inl old
        · exact Or.inr ⟨List.mem_singleton.mp added, other⟩
      · obtain ⟨_, candidate, listed, rfl⟩ := mem_of_mem_select member
        rcases List.mem_append.mp (id_mem_of_mem_ranked listed) with
          old | added
        · exact Or.inl old
        · exact Or.inr ⟨List.mem_singleton.mp added, other⟩

theorem offerTo_nodup (distinct : run.Nodup) :
    (apart.offerTo owner incoming capacity backfill run).Nodup := by
  unfold offerTo
  split
  · exact distinct
  · next new =>
      obtain ⟨_, absent⟩ := not_or.mp new
      have longer : (run ++ [incoming]).Nodup := by
        rw [List.nodup_append_comm]
        exact List.nodup_cons.mpr ⟨absent, distinct⟩
      split
      · exact longer
      · exact select_nodup ((ranked_map_id_perm _).nodup_iff.mpr longer)

/-- An owner that is not among some points has all of them as others. -/
theorem length_others_ranked {ids : List PointId} (absent : owner ∉ ids) :
    (others owner (apart.ranked owner ids)).length = ids.length := by
  have perm : (others owner (apart.ranked owner ids)).Perm
      (ids.filter (· ≠ owner)) :=
    (ranked_map_id_perm ids).filter _
  have all : ids.filter (· ≠ owner) = ids := by
    apply List.filter_eq_self.mpr
    intro id member
    have : id ≠ owner := fun same => absent (same ▸ member)
    simpa using this
  rw [perm.length_eq, all]

section New

variable (other : owner ≠ incoming) (absent : incoming ∉ run)
include other absent

theorem offerTo_of_room (room : run.length < capacity) :
    apart.offerTo owner incoming capacity backfill run =
      run ++ [incoming] := by
  simp [offerTo, other, absent, room]

theorem offerTo_of_full (full : capacity ≤ run.length) :
    apart.offerTo owner incoming capacity backfill run =
      apart.select owner (apart.ranked owner (run ++ [incoming])) capacity
        backfill := by
  simp [offerTo, other, absent, Nat.not_lt.mpr full]

/-- A run either grows by what it is offered, or is full and stays full. -/
theorem offerTo_eq_append_or_full (ownerAbsent : owner ∉ run)
    (fits : run.length ≤ capacity) :
    apart.offerTo owner incoming capacity true run = run ++ [incoming] ∨
      run.length = capacity ∧
        (apart.offerTo owner incoming capacity true run).length =
          capacity := by
  rcases Nat.lt_or_eq_of_le fits with room | full
  · exact Or.inl (offerTo_of_room other absent room)
  · right
    have ownerNew : owner ∉ run ++ [incoming] := by
      simp [ownerAbsent, other]
    rw [offerTo_of_full other absent full.ge, length_select_backfill,
      length_others_ranked ownerNew, List.length_append,
      List.length_singleton]
    omega

/-- A run that is offered something is not empty afterwards. -/
theorem offerTo_ne_nil (ownerAbsent : owner ∉ run) (nonzero : capacity ≠ 0) :
    apart.offerTo owner incoming capacity backfill run ≠ [] := by
  rcases Nat.lt_or_ge run.length capacity with room | full
  · rw [offerTo_of_room other absent room]
    simp
  · have ownerNew : owner ∉ run ++ [incoming] := by
      simp [ownerAbsent, other]
    rw [offerTo_of_full other absent full]
    intro none
    have first : (apart.select owner
        (apart.ranked owner (run ++ [incoming])) capacity backfill).head? =
          (others owner (apart.ranked owner (run ++ [incoming]))).head? :=
      head?_select nonzero _
    have counted : (others owner
        (apart.ranked owner (run ++ [incoming]))).length =
          (run ++ [incoming]).length := length_others_ranked ownerNew
    rw [none, List.head?_nil, eq_comm, List.head?_eq_none_iff] at first
    rw [first] at counted
    simp at counted

end New

end Distances

section Proper

variable {runs : Runs} {onLevel : Nat → PointId → Prop} {id neighbor : PointId} {level : Nat}

theorem Runs.Proper.offer (proper : runs.Proper onLevel)
    (capacityAt : Nat → Nat) (ownerReaches : onLevel level owner)
    (neighborReaches : onLevel level neighbor) :
    (runs.offer apart capacityAt owner neighbor level).Proper onLevel := by
  have member : ∀ {id level' other}, onLevel level' id →
      other ∈ runs.offer apart capacityAt owner neighbor level id level' →
        other ≠ id ∧ onLevel level' other := by
    intro id level' other reaches listed
    unfold Runs.offer at listed
    by_cases same : id = owner ∧ level' = level
    · obtain ⟨rfl, rfl⟩ := same
      rw [Runs.set_self] at listed
      rcases Distances.mem_of_mem_offerTo listed with old | ⟨rfl, different⟩
      · exact ⟨proper.ne reaches old, proper.reaches reaches old⟩
      · exact ⟨different.symm, neighborReaches⟩
    · rw [Runs.set, if_neg same] at listed
      exact ⟨proper.ne reaches listed, proper.reaches reaches listed⟩
  refine ⟨?_, fun reaches listed => (member reaches listed).1,
    fun reaches listed => (member reaches listed).2⟩
  intro id level' reaches
  unfold Runs.offer
  by_cases same : id = owner ∧ level' = level
  · obtain ⟨rfl, rfl⟩ := same
    rw [Runs.set_self]
    exact Distances.offerTo_nodup (proper.nodup reaches)
  · rw [Runs.set, if_neg same]
    exact proper.nodup reaches

theorem Runs.Proper.connect (capacityAt : Nat → Nat)
    (idReaches : onLevel level id) {neighbors : List PointId}
    (neighborsReach : ∀ neighbor ∈ neighbors, onLevel level neighbor)
    {runs : Runs} (proper : runs.Proper onLevel) :
    (runs.connect apart capacityAt id level neighbors).Proper onLevel := by
  induction neighbors generalizing runs with
  | nil => exact proper
  | cons neighbor rest inductionHypothesis =>
      have here := neighborsReach neighbor List.mem_cons_self
      exact inductionHypothesis
        (fun later member => neighborsReach later
          (List.mem_cons_of_mem _ member))
        ((proper.offer capacityAt idReaches here).offer capacityAt here
          idReaches)

end Proper

namespace Links

variable {links : Links} {runs : Runs} {cloud : Cloud} {id neighbor : PointId}
  {level : Nat}

theorem Laid.capacity_eq (laid : links.Laid)
    (reaches : links.Reaches level id) :
    links.table.capacity level = .ok (links.table.runLength level) := by
  simp only [LevelTable.capacity, laid.lt_count reaches, if_true]

/-- The distances of a cloud, as far as points of the links are concerned. -/
def Measured (links : Links) (cloud : Cloud) (apart : Distances) : Prop :=
  ∀ {first second}, links.Reaches 0 first → links.Reaches 0 second →
    cloud.distanceBetween first second = .ok (apart first second)

/-- A run selects anew from what it lists and what it is offered, and is
overwritten. -/
theorem reselect_outcome {links next : Links} {before kept : List PointId}
    (listed : links.neighbors owner level = .ok before)
    (capacityEq : links.table.capacity level = .ok capacity)
    (measured : ∀ id ∈ before ++ [neighbor],
      cloud.distanceBetween owner id = .ok (apart owner id))
    (chosen : cloud.chooseNeighbors owner
      (apart.ranked owner (before ++ [neighbor])) capacity (level == 0) =
        .ok kept)
    (written : links.overwrite owner level kept = .ok next) :
    (links.reselect cloud owner level neighbor).outcome = .ok next := by
  have candidates : ((before ++ [neighbor]).mapM fun neighbor =>
      (do
        let distance ← cloud.distanceBetween owner neighbor
        pure { distance, id := neighbor } : Traced Hit)).outcome =
      .ok ((before ++ [neighbor]).map fun id =>
        { distance := apart owner id, id }) := by
    refine Traced.outcome_mapM fun id member => ?_
    rw [measured id member]
    rfl
  simp only [reselect, Traced.outcome_bind, listed,
    Traced.outcome_lift_fault_ok, ok_bind, candidates, capacityEq,
    Distances.sort_eq_ranked apart owner, chosen, Traced.outcome_record,
    written]

theorem Represents.reselect_eq (represents : links.Represents runs)
    (proper : runs.Proper links.Reaches) (measured : links.Measured cloud apart)
    (ownerReaches : links.Reaches level owner)
    (neighborReaches : links.Reaches level neighbor) :
    ∃ slots, (links.reselect cloud owner level neighbor).outcome =
        .ok { links with slots } ∧
      { links with slots }.Represents (runs.set owner level
        (apart.select owner
          (apart.ranked owner (runs owner level ++ [neighbor]))
          (links.table.runLength level) (level == 0))) := by
  have candidateReaches : ∀ id ∈ runs owner level ++ [neighbor],
      links.Reaches level id := by
    intro id member
    rcases List.mem_append.mp member with old | new
    · exact proper.reaches ownerReaches old
    · exact List.mem_singleton.mp new ▸ neighborReaches
  have sortedReaches : ∀ hit ∈ apart.ranked owner
      (runs owner level ++ [neighbor]), links.Reaches level hit.id :=
    fun hit member =>
      candidateReaches hit.id (Distances.id_mem_of_mem_ranked member)
  have chosen := cloud.chooseNeighbors_eq (links.Reaches 0) measured owner
    (fun hit member => (sortedReaches hit member).of_le (Nat.zero_le _))
    (links.table.runLength level) (level == 0)
  have fits : (apart.select owner
      (apart.ranked owner (runs owner level ++ [neighbor]))
      (links.table.runLength level) (level == 0)).length ≤
        links.table.runLength level := Distances.select_length_le
  have real : noNeighbor ∉ apart.select owner
      (apart.ranked owner (runs owner level ++ [neighbor]))
      (links.table.runLength level) (level == 0) := by
    intro member
    obtain ⟨_, hit, listed, free⟩ := Distances.mem_of_mem_select member
    exact represents.laid.ne_noNeighbor (sortedReaches hit listed) free
  obtain ⟨slots, written, represents'⟩ :=
    represents.overwrite_eq ownerReaches fits real
  exact ⟨slots, reselect_outcome (represents.neighbors_eq ownerReaches)
    (represents.laid.capacity_eq ownerReaches)
    (fun id member => measured (ownerReaches.of_le (Nat.zero_le _))
      ((candidateReaches id member).of_le (Nat.zero_le _)))
    chosen written, represents'⟩

/-- A full run to which a further point is offered selects anew. -/
theorem Represents.offer_of_full (represents : links.Represents runs)
    (ownerReaches : links.Reaches level owner) (other : owner ≠ neighbor)
    (absent : neighbor ∉ runs owner level)
    (full : links.table.runLength level ≤ (runs owner level).length) :
    (links.offer cloud owner neighbor level).outcome =
      (links.reselect cloud owner level neighbor).outcome := by
  simp only [offer, other, if_false, Traced.outcome_bind,
    represents.add_eq_full ownerReaches absent full,
    Traced.outcome_lift_fault_ok, ok_bind]

/-- An offer changes the slots as it changes the runs. -/
theorem Represents.offer_eq (apart : Distances)
    (represents : links.Represents runs)
    (proper : runs.Proper links.Reaches) (measured : links.Measured cloud apart)
    (ownerReaches : links.Reaches level owner)
    (neighborReaches : links.Reaches level neighbor) :
    ∃ slots, (links.offer cloud owner neighbor level).outcome =
        .ok { links with slots } ∧
      { links with slots }.Represents
        (runs.offer apart links.table.runLength owner neighbor level) := by
  unfold Runs.offer Distances.offerTo
  by_cases same : owner = neighbor
  · rw [if_pos (Or.inl same), Runs.set_eq_self]
    refine ⟨links.slots, ?_, represents⟩
    unfold offer
    rw [if_pos same]
    rfl
  · by_cases known : neighbor ∈ runs owner level
    · rw [if_pos (Or.inr known), Runs.set_eq_self]
      refine ⟨links.slots, ?_, represents⟩
      simp only [offer, same, if_false, Traced.outcome_bind,
        represents.add_eq_known ownerReaches known,
        Traced.outcome_lift_fault_ok, ok_bind, Traced.outcome_pure]
    · rw [if_neg (not_or.mpr ⟨same, known⟩)]
      by_cases free : (runs owner level).length < links.table.runLength level
      · rw [if_pos free]
        obtain ⟨slots, added, represents'⟩ := represents.add_eq_added
          ownerReaches known
          (represents.laid.ne_noNeighbor neighborReaches) free
        refine ⟨slots, ?_, represents'⟩
        simp only [offer, same, if_false, Traced.outcome_bind, added,
          Traced.outcome_lift_fault_ok, ok_bind, Traced.outcome_pure]
      · rw [if_neg free]
        obtain ⟨slots, reselected, represents'⟩ := represents.reselect_eq
          proper measured ownerReaches neighborReaches
        exact ⟨slots, (represents.offer_of_full ownerReaches same known
          (Nat.not_lt.mp free)).trans reselected, represents'⟩

/-- Connecting a point changes the slots as it changes the runs. -/
theorem Represents.connect_eq (measured : links.Measured cloud apart)
    (idReaches : links.Reaches level id) {neighbors : List PointId}
    (neighborsReach : ∀ neighbor ∈ neighbors, links.Reaches level neighbor)
    {slots : Array PointId} {runs : Runs}
    (represents : { links with slots }.Represents runs)
    (proper : runs.Proper links.Reaches) :
    ∃ slots', (connect cloud id level neighbors
        { links with slots }).outcome = .ok { links with slots := slots' } ∧
      { links with slots := slots' }.Represents
        (runs.connect apart links.table.runLength id level neighbors) := by
  induction neighbors generalizing runs slots with
  | nil => exact ⟨slots, rfl, represents⟩
  | cons neighbor rest inductionHypothesis =>
      have here := neighborsReach neighbor List.mem_cons_self
      obtain ⟨first, firstOffer, firstRepresents⟩ :=
        represents.offer_eq apart proper measured idReaches here
      have firstProper : (runs.offer apart links.table.runLength id neighbor
          level).Proper links.Reaches :=
        proper.offer links.table.runLength idReaches here
      obtain ⟨second, secondOffer, secondRepresents⟩ :=
        firstRepresents.offer_eq apart firstProper measured here idReaches
      obtain ⟨slots', connected, represents'⟩ := inductionHypothesis
        (fun later member => neighborsReach later
          (List.mem_cons_of_mem _ member))
        secondRepresents
        (firstProper.offer links.table.runLength here idReaches)
      refine ⟨slots', ?_, represents'⟩
      simp only [connect, Traced.outcome_bind, firstOffer, ok_bind,
        secondOffer, connected]

end Links

end SmallWorld
