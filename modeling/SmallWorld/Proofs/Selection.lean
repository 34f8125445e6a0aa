import Mathlib.Tactic
import SmallWorld.Selection

/-!
# Selection without faults

When all distances exist, selection is a plain function of them.  Whatever
the distances are, it returns different candidates other than the owner, and
not more than asked for.
-/

namespace SmallWorld

/-- The distance of two points, for points that have one. -/
abbrev Distances := PointId → PointId → Scalar

namespace Distances

/-- Whether no chosen neighbour is strictly nearer to a candidate than the
candidate's own distance. -/
def diverse (apart : Distances) (candidate : Hit) (chosen : List PointId) :
    Bool :=
  chosen.all fun neighbor =>
    decide (candidate.distance ≤ apart candidate.id neighbor)

def selectFrom (apart : Distances) (owner : PointId) (capacity : Nat)
    (backfill : Bool) (chosen passedOver : List PointId) :
    (candidates : List Hit) → List PointId
  | [] =>
      if backfill then
        chosen ++ passedOver.take (capacity - chosen.length)
      else
        chosen
  | candidate :: rest =>
      if candidate.id = owner then
        apart.selectFrom owner capacity backfill chosen passedOver rest
      else if apart.diverse candidate chosen then
        if capacity ≤ chosen.length + 1 then
          chosen ++ [candidate.id]
        else
          apart.selectFrom owner capacity backfill (chosen ++ [candidate.id])
            passedOver rest
      else
        apart.selectFrom owner capacity backfill chosen
          (passedOver ++ [candidate.id]) rest

def select (apart : Distances) (owner : PointId) (candidates : List Hit)
    (capacity : Nat) (backfill : Bool) : List PointId :=
  if capacity = 0 then
    []
  else
    apart.selectFrom owner capacity backfill [] [] candidates

variable {apart : Distances} {owner : PointId} {capacity : Nat}
  {backfill : Bool} {chosen passedOver : List PointId}
  {candidates : List Hit}

def others (owner : PointId) (candidates : List Hit) : List PointId :=
  (candidates.map Hit.id).filter (· ≠ owner)

theorem others_cons_self {candidate : Hit} (same : candidate.id = owner) :
    others owner (candidate :: candidates) = others owner candidates := by
  simp [others, same]

theorem others_cons_of_ne {candidate : Hit} (other : candidate.id ≠ owner) :
    others owner (candidate :: candidates) =
      candidate.id :: others owner candidates := by
  simp [others, other]

/-- What is selected has been chosen or passed over, or is a candidate. -/
theorem selectFrom_subperm (candidates : List Hit)
    (chosen passedOver : List PointId) :
    (apart.selectFrom owner capacity backfill chosen passedOver
      candidates).Subperm
        (chosen ++ passedOver ++ others owner candidates) := by
  induction candidates generalizing chosen passedOver with
  | nil =>
      unfold selectFrom
      rw [show others owner [] = [] from rfl, List.append_nil]
      split
      · exact ((List.take_sublist _ _).append_left chosen).subperm
      · exact (List.sublist_append_left _ _).subperm
  | cons candidate rest inductionHypothesis =>
      unfold selectFrom
      split
      · next same =>
          rw [others_cons_self same]
          exact inductionHypothesis chosen passedOver
      · next other =>
          rw [others_cons_of_ne other]
          have choosing : (chosen ++ [candidate.id] ++ passedOver ++
              others owner rest).Perm (chosen ++ passedOver ++
                candidate.id :: others owner rest) := by
            simp only [List.append_assoc, List.singleton_append]
            exact (List.perm_middle.symm).append_left chosen
          split
          · split
            · refine List.Subperm.trans ?_ choosing.subperm
              rw [List.append_assoc]
              exact (List.sublist_append_left _ _).subperm
            · exact (inductionHypothesis _ _).trans choosing.subperm
          · have passing := inductionHypothesis chosen
              (passedOver ++ [candidate.id])
            rwa [← List.append_assoc, List.append_assoc,
              List.singleton_append] at passing

theorem selectFrom_length_le (candidates : List Hit)
    (chosen passedOver : List PointId) (room : chosen.length < capacity) :
    (apart.selectFrom owner capacity backfill chosen passedOver
      candidates).length ≤ capacity := by
  induction candidates generalizing chosen passedOver with
  | nil =>
      unfold selectFrom
      split
      · rw [List.length_append, List.length_take]
        omega
      · exact room.le
  | cons candidate rest inductionHypothesis =>
      unfold selectFrom
      split
      · exact inductionHypothesis _ _ room
      · split
        · split
          · rw [List.length_append, List.length_singleton]
            omega
          · refine inductionHypothesis _ _ ?_
            rw [List.length_append, List.length_singleton]
            omega
        · exact inductionHypothesis _ _ room

theorem select_subperm : (apart.select owner candidates capacity
    backfill).Subperm (others owner candidates) := by
  unfold select
  split
  · exact List.nil_subperm
  · exact selectFrom_subperm candidates [] []

theorem select_length_le :
    (apart.select owner candidates capacity backfill).length ≤ capacity := by
  unfold select
  split
  · exact Nat.zero_le _
  · next nonzero =>
      exact selectFrom_length_le candidates [] [] (Nat.pos_of_ne_zero nonzero)

theorem select_nodup (distinct : (candidates.map Hit.id).Nodup) :
    (apart.select owner candidates capacity backfill).Nodup := by
  obtain ⟨sorted, perm, sublist⟩ : (apart.select owner candidates capacity
    backfill).Subperm (others owner candidates) := select_subperm
  exact perm.nodup_iff.mp ((distinct.filter _).sublist sublist)

/-- What has been chosen stays chosen, and comes first. -/
theorem prefix_selectFrom (candidates : List Hit)
    (chosen passedOver : List PointId) :
    chosen <+: apart.selectFrom owner capacity backfill chosen passedOver
      candidates := by
  induction candidates generalizing chosen passedOver with
  | nil =>
      rw [selectFrom]
      split
      · exact List.prefix_append _ _
      · exact List.prefix_refl _
  | cons candidate rest inductionHypothesis =>
      rw [selectFrom]
      split
      · exact inductionHypothesis _ _
      · split
        · split
          · exact List.prefix_append _ _
          · exact (List.prefix_append _ _).trans (inductionHypothesis _ _)
        · exact inductionHypothesis _ _

/-- The first candidate other than the owner is selected first: there is no
neighbour yet that could be nearer to it. -/
theorem head?_select (room : capacity ≠ 0) (candidates : List Hit) :
    (apart.select owner candidates capacity backfill).head? =
      (others owner candidates).head? := by
  rw [select, if_neg room]
  induction candidates with
  | nil => cases backfill <;> simp [selectFrom, others]
  | cons candidate rest inductionHypothesis =>
      rw [selectFrom]
      split
      · next same =>
          rw [others_cons_self same]
          exact inductionHypothesis
      · next other =>
          rw [others_cons_of_ne other, List.head?_cons]
          simp only [diverse, List.all_nil, if_true, List.nil_append]
          split
          · rfl
          · have first : [candidate.id] <+: apart.selectFrom owner capacity
                backfill [candidate.id] [] rest := prefix_selectFrom rest _ _
            obtain ⟨later, selected⟩ := first
            rw [← selected]
            rfl

theorem length_selectFrom_backfill (candidates : List Hit)
    (chosen passedOver : List PointId) (room : chosen.length < capacity) :
    (apart.selectFrom owner capacity true chosen passedOver
      candidates).length = min capacity (chosen.length + passedOver.length +
        (others owner candidates).length) := by
  induction candidates generalizing chosen passedOver with
  | nil =>
      simp only [selectFrom, if_true, List.length_append, List.length_take,
        others, List.map_nil, List.filter_nil, List.length_nil]
      omega
  | cons candidate rest inductionHypothesis =>
      rw [selectFrom]
      split
      · next same =>
          rw [others_cons_self same]
          exact inductionHypothesis _ _ room
      · next other =>
          rw [others_cons_of_ne other, List.length_cons]
          split
          · split
            · rw [List.length_append, List.length_singleton]
              omega
            · rw [inductionHypothesis _ _ (by
                rw [List.length_append, List.length_singleton]
                omega), List.length_append, List.length_singleton]
              omega
          · rw [inductionHypothesis _ _ room, List.length_append,
              List.length_singleton]
            omega

/-- With the candidates that were passed over, as many are selected as there
is room for. -/
theorem length_select_backfill (candidates : List Hit) :
    (apart.select owner candidates capacity true).length =
      min capacity (others owner candidates).length := by
  rw [select]
  split
  · next none => simp [none]
  · next some =>
      rw [length_selectFrom_backfill candidates [] []
        (Nat.pos_of_ne_zero some)]
      simp

/-- The owner is never selected, and only candidates are. -/
theorem mem_of_mem_select {neighbor : PointId}
    (selected : neighbor ∈ apart.select owner candidates capacity backfill) :
    neighbor ≠ owner ∧ ∃ candidate ∈ candidates, candidate.id = neighbor := by
  have member := select_subperm.subset selected
  obtain ⟨listed, other⟩ := List.mem_filter.mp member
  exact ⟨by simpa using other, List.mem_map.mp listed⟩

end Distances

namespace Cloud

variable {cloud : Cloud} {apart : Distances} {inside : PointId → Prop}

theorem isDiverse_eq
    (measured : ∀ {first second}, inside first → inside second →
      cloud.distanceBetween first second = .ok (apart first second))
    {candidate : Hit} (candidateInside : inside candidate.id)
    {chosen : List PointId} (chosenInside : ∀ id ∈ chosen, inside id) :
    cloud.isDiverse candidate chosen = .ok (apart.diverse candidate chosen) := by
  induction chosen with
  | nil => rfl
  | cons neighbor rest inductionHypothesis =>
      have further := inductionHypothesis
        (fun id member => chosenInside id (List.mem_cons_of_mem _ member))
      unfold isDiverse
      rw [measured candidateInside (chosenInside _ List.mem_cons_self)]
      simp only [bind, Except.bind, Distances.diverse, List.all_cons]
      split
      · next near =>
          rw [further, decide_eq_true near, Bool.true_and]
          rfl
      · next far =>
          rw [decide_eq_false far, Bool.false_and]

theorem chooseFrom_eq
    (measured : ∀ {first second}, inside first → inside second →
      cloud.distanceBetween first second = .ok (apart first second))
    {owner : PointId} {capacity : Nat} {backfill : Bool}
    {candidates : List Hit} (candidatesInside : ∀ hit ∈ candidates,
      inside hit.id) {chosen : List PointId}
    (chosenInside : ∀ id ∈ chosen, inside id) (room : chosen.length ≤ capacity)
    (passedOver : List PointId) :
    cloud.chooseFrom owner capacity backfill chosen passedOver candidates =
      .ok (apart.selectFrom owner capacity backfill chosen passedOver
        candidates) := by
  induction candidates generalizing chosen passedOver with
  | nil =>
      unfold chooseFrom Distances.selectFrom
      rw [placesLeft, if_neg (Nat.not_lt.mpr room)]
      split <;> rfl
  | cons candidate rest inductionHypothesis =>
      have restInside : ∀ hit ∈ rest, inside hit.id :=
        fun hit member => candidatesInside hit (List.mem_cons_of_mem _ member)
      have here := candidatesInside candidate List.mem_cons_self
      unfold chooseFrom Distances.selectFrom
      split
      · exact inductionHypothesis restInside chosenInside room passedOver
      · rw [isDiverse_eq measured here chosenInside]
        simp only [bind, Except.bind, List.length_append,
          List.length_singleton]
        have extended : ∀ id ∈ chosen ++ [candidate.id], inside id := by
          intro id member
          rcases List.mem_append.mp member with old | new
          · exact chosenInside id old
          · exact List.mem_singleton.mp new ▸ here
        split
        · split
          · rfl
          · next notFull =>
              refine inductionHypothesis restInside extended ?_ passedOver
              rw [List.length_append, List.length_singleton]
              exact (Nat.not_le.mp notFull).le
        · exact inductionHypothesis restInside chosenInside room _

theorem chooseNeighbors_eq (inside : PointId → Prop)
    (measured : ∀ {first second}, inside first → inside second →
      cloud.distanceBetween first second = .ok (apart first second))
    (owner : PointId) {candidates : List Hit}
    (candidatesInside : ∀ hit ∈ candidates, inside hit.id)
    (capacity : Nat) (backfill : Bool) :
    cloud.chooseNeighbors owner candidates capacity backfill =
      .ok (apart.select owner candidates capacity backfill) := by
  unfold chooseNeighbors Distances.select
  split
  · rfl
  · exact chooseFrom_eq measured candidatesInside (by simp) (Nat.zero_le _) []

end Cloud

end SmallWorld
