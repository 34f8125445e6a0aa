import SmallWorld.Proofs.Links.Placement

/-!
# How a new point joins the runs

Linking a new point changes few runs.  Its own run at a level lists what it
has selected there (`Placement.linkLevel_self`), the runs of the selected
points are offered the new point, and all others stay as they are
(`Placement.linkLevel_other`).  The levels do not interfere: what happens at
one of them is determined by its own runs as they were before, and by the
place where the search of the level starts (`Placement.linkLevels_of_le`).
-/

namespace SmallWorld

namespace Runs

variable {runs runs' : Runs} {apart : Distances} {capacityAt : Nat → Nat}
  {id owner neighbor other : PointId} {level level' : Nat}

@[simp]
theorem offer_self (runs : Runs) (apart : Distances) (capacityAt : Nat → Nat)
    (owner neighbor : PointId) (level : Nat) :
    runs.offer apart capacityAt owner neighbor level owner level =
      apart.offerTo owner neighbor (capacityAt level) (level == 0)
        (runs owner level) := by
  rw [offer, set_self]

theorem offer_of_ne (neighbor : PointId)
    (different : owner ≠ other ∨ level ≠ level') :
    runs.offer apart capacityAt owner neighbor level other level' =
      runs other level' := by
  rw [offer, set_of_ne _ different]

/-- What is done at one level does not change the runs of another one. -/
theorem connect_of_level_ne (different : level ≠ level')
    (neighbors : List PointId) (runs : Runs) :
    runs.connect apart capacityAt id level neighbors other level' =
      runs other level' := by
  induction neighbors generalizing runs with
  | nil => rfl
  | cons neighbor rest inductionHypothesis =>
      rw [connect, inductionHypothesis, offer_of_ne _ (Or.inr different),
        offer_of_ne _ (Or.inr different)]

/-- What is done at a level depends on the runs of that level. -/
theorem connect_congr (neighbors : List PointId) {runs runs' : Runs}
    (same : ∀ other, runs other level = runs' other level)
    (other : PointId) :
    runs.connect apart capacityAt id level neighbors other level =
      runs'.connect apart capacityAt id level neighbors other level := by
  induction neighbors generalizing runs runs' with
  | nil => exact same other
  | cons neighbor rest inductionHypothesis =>
      have offered : ∀ (owner incoming : PointId) {runs runs' : Runs},
          (∀ other, runs other level = runs' other level) →
          ∀ other,
            runs.offer apart capacityAt owner incoming level other level =
              runs'.offer apart capacityAt owner incoming level other
                level := by
        intro owner incoming runs runs' same other
        by_cases own : owner = other
        · subst own
          rw [offer_self, offer_self, same]
        · rw [offer_of_ne _ (Or.inl own), offer_of_ne _ (Or.inl own), same]
      exact inductionHypothesis (offered _ _ (offered _ _ same))

/-- A point with room for different others lists all of them in the end, and
each of them has been offered the point once. -/
theorem connect_apply {neighbors : List PointId} {runs : Runs}
    (distinct : (runs id level ++ neighbors).Nodup)
    (notSelf : id ∉ neighbors)
    (room : (runs id level).length + neighbors.length ≤ capacityAt level) :
    runs.connect apart capacityAt id level neighbors id level =
        runs id level ++ neighbors ∧
      ∀ other ≠ id,
        runs.connect apart capacityAt id level neighbors other level =
          if other ∈ neighbors then
            apart.offerTo other id (capacityAt level) (level == 0)
              (runs other level)
          else
            runs other level := by
  induction neighbors generalizing runs with
  | nil => simp [connect]
  | cons neighbor rest inductionHypothesis =>
      obtain ⟨neighborOther, restOther⟩ :=
        not_or.mp (mt List.mem_cons.mpr notSelf)
      rw [List.length_cons] at room
      have moved : runs id level ++ neighbor :: rest =
          runs id level ++ [neighbor] ++ rest := by simp
      have fresh : neighbor ∉ runs id level := fun member =>
        (List.nodup_append.mp distinct).2.2 neighbor member neighbor
          List.mem_cons_self rfl
      have notLater : neighbor ∉ rest :=
        (List.nodup_cons.mp (List.nodup_append.mp distinct).2.1).1
      rw [moved] at distinct ⊢
      have own : (runs.offer apart capacityAt id neighbor level).offer apart
          capacityAt neighbor id level id level =
            runs id level ++ [neighbor] := by
        rw [offer_of_ne _ (Or.inl (Ne.symm neighborOther)), offer_self,
          Distances.offerTo_of_room neighborOther fresh (by omega)]
      have back : (runs.offer apart capacityAt id neighbor level).offer apart
          capacityAt neighbor id level neighbor level =
            apart.offerTo neighbor id (capacityAt level) (level == 0)
              (runs neighbor level) := by
        rw [offer_self, offer_of_ne _ (Or.inl neighborOther)]
      obtain ⟨self, others⟩ := inductionHypothesis (own.symm ▸ distinct)
        restOther (by
          rw [own, List.length_append, List.length_singleton]
          omega)
      rw [connect]
      refine ⟨own ▸ self, fun other different => ?_⟩
      rw [others other different]
      by_cases here : other = neighbor
      · subst here
        rw [if_neg notLater, if_pos List.mem_cons_self, back]
      · rw [offer_of_ne _ (Or.inl (Ne.symm here)),
          offer_of_ne _ (Or.inl (Ne.symm different))]
        simp [here]

end Runs

namespace Placement

variable {placement : Placement} {runs runs' : Runs} {level level' : Nat}
  {start : Hit} {inside : PointId → Prop}

theorem terrain_congr (same : ∀ id, runs id level = runs' id level) :
    placement.terrain runs level = placement.terrain runs' level :=
  congrArg (Terrain.mk · placement.distance) (funext same)

theorem candidates_congr (same : ∀ id, runs id level = runs' id level) :
    placement.candidates runs level start =
      placement.candidates runs' level start := by
  rw [candidates, candidates, terrain_congr same]

theorem linkLevel_of_ne (different : level ≠ level') (id : PointId) :
    placement.linkLevel runs level start id level' = runs id level' :=
  Runs.connect_of_level_ne different _ runs

theorem linkLevel_congr (same : ∀ id, runs id level = runs' id level)
    (id : PointId) :
    placement.linkLevel runs level start id level =
      placement.linkLevel runs' level start id level := by
  rw [linkLevel, linkLevel, selected, selected, candidates_congr same]
  exact Runs.connect_congr _ same id

section Join

variable (startsAmong : placement.StartsAmong runs level inside start)
  (outside : ¬ inside placement.id) (empty : runs placement.id level = [])
include startsAmong outside empty

private theorem linkLevel_apply :
    placement.linkLevel runs level start placement.id level =
        runs placement.id level ++ placement.selected runs level start ∧
      ∀ other ≠ placement.id,
        placement.linkLevel runs level start other level =
          if other ∈ placement.selected runs level start then
            placement.apart.offerTo other placement.id
              (placement.capacity level) (level == 0) (runs other level)
          else
            runs other level := by
  refine Runs.connect_apply ?_ (fun member => ?_) ?_
  · rw [empty, List.nil_append]
    exact startsAmong.selected_nodup
  · exact outside (startsAmong.selected_inside _ member)
  · rw [empty, List.length_nil, Nat.zero_add]
    exact Distances.select_length_le

theorem linkLevel_self :
    placement.linkLevel runs level start placement.id level =
      placement.selected runs level start := by
  rw [(linkLevel_apply startsAmong outside empty).1, empty, List.nil_append]

/-- What the new point has selected is offered the new point. -/
theorem linkLevel_other {other : PointId} (different : other ≠ placement.id) :
    placement.linkLevel runs level start other level =
      if other ∈ placement.selected runs level start then
        placement.apart.offerTo other placement.id (placement.capacity level)
          (level == 0) (runs other level)
      else
        runs other level :=
  (linkLevel_apply startsAmong outside empty).2 other different

end Join

/-- Where the search of a level starts if that of a higher one starts at the
given hit. -/
def startAt (placement : Placement) (runs : Runs) (target : Nat) :
    (level : Nat) → Hit → Hit
  | 0, start => start
  | level + 1, start =>
      if level + 1 ≤ target then
        start
      else
        placement.startAt runs target level
          (placement.nextStart runs (level + 1) start)

@[simp]
theorem startAt_self (placement : Placement) (runs : Runs) (level : Nat)
    (start : Hit) : placement.startAt runs level level start = start := by
  cases level with
  | zero => rfl
  | succ level => rw [startAt, if_pos (Nat.le_refl _)]

theorem startAt_succ {target : Nat} (below : target ≤ level) (start : Hit) :
    placement.startAt runs target (level + 1) start =
      placement.startAt runs target level
        (placement.nextStart runs (level + 1) start) := by
  rw [startAt, if_neg (by omega)]

/-- The search of a level starts at the best hit of the search above it. -/
theorem startAt_of_lt {target : Nat} (below : target < level) (start : Hit) :
    placement.startAt runs target level start =
      placement.nextStart runs (target + 1)
        (placement.startAt runs (target + 1) level start) := by
  induction level generalizing start with
  | zero => exact absurd below (Nat.not_lt_zero target)
  | succ level inductionHypothesis =>
      rw [startAt_succ (Nat.le_of_lt_succ below)]
      rcases Nat.lt_or_eq_of_le (Nat.le_of_lt_succ below) with lower | rfl
      · rw [inductionHypothesis lower, startAt_succ lower]
      · rw [startAt_self, startAt_self]

theorem startAt_congr {target : Nat} (start : Hit)
    (same : ∀ level' ≤ level, ∀ id, runs id level' = runs' id level') :
    placement.startAt runs target level start =
      placement.startAt runs' target level start := by
  induction level generalizing start with
  | zero => rfl
  | succ level inductionHypothesis =>
      rw [startAt, startAt, nextStart, nextStart,
        candidates_congr (same (level + 1) (Nat.le_refl _)),
        inductionHypothesis _ fun level' below =>
          same level' (below.trans (Nat.le_succ level))]

/-- Searches that start among points of each level go on doing so. -/
theorem startAt_startsAmong {inside : Nat → PointId → Prop} {target : Nat}
    (lower : ∀ {level level' id}, inside level id → level' ≤ level →
      inside level' id)
    (comparable : ∀ level,
      (placement.terrain runs level).Comparable (inside level))
    (closed : ∀ {level id neighbor}, inside level id →
      neighbor ∈ runs id level → inside level neighbor)
    (below : target ≤ level) (startInside : inside level start.id)
    (startMarked : start.distance = placement.distance start.id) :
    placement.StartsAmong runs target (inside target)
      (placement.startAt runs target level start) := by
  induction level generalizing start with
  | zero =>
      obtain rfl := Nat.le_zero.mp below
      exact ⟨comparable 0, closed, startInside, startMarked⟩
  | succ level inductionHypothesis =>
      rcases Nat.lt_or_eq_of_le below with lower' | rfl
      · have here : placement.StartsAmong runs (level + 1)
            (inside (level + 1)) start :=
          ⟨comparable _, closed, startInside, startMarked⟩
        have within := Nat.le_of_lt_succ lower'
        rw [startAt_succ within]
        exact inductionHypothesis within
          (lower here.nextStart_inside.1 (Nat.le_succ level))
          here.nextStart_inside.2
      · rw [startAt_self]
        exact ⟨comparable _, closed, startInside, startMarked⟩

theorem linkLevels_of_lt (above : level < level') (start : Hit)
    (runs : Runs) (id : PointId) :
    placement.linkLevels level start runs id level' = runs id level' := by
  induction level generalizing start runs with
  | zero => exact linkLevel_of_ne (Nat.ne_of_lt above) id
  | succ level inductionHypothesis =>
      rw [linkLevels, inductionHypothesis (by omega),
        linkLevel_of_ne (Nat.ne_of_lt above)]

/-- At each level the point is linked as if it were the only one. -/
theorem linkLevels_of_le (below : level' ≤ level) (start : Hit)
    (runs : Runs) (id : PointId) :
    placement.linkLevels level start runs id level' =
      placement.linkLevel runs level'
        (placement.startAt runs level' level start) id level' := by
  induction level generalizing start runs with
  | zero =>
      obtain rfl := Nat.le_zero.mp below
      rfl
  | succ level inductionHypothesis =>
      rw [linkLevels]
      rcases Nat.lt_or_eq_of_le below with lower | rfl
      · have within := Nat.le_of_lt_succ lower
        have unchanged : ∀ level' ≤ level, ∀ id,
            placement.linkLevel runs (level + 1) start id level' =
              runs id level' := fun level' inside id =>
          linkLevel_of_ne (by omega) id
        rw [inductionHypothesis within, startAt_succ within,
          startAt_congr _ unchanged,
          linkLevel_congr (unchanged level' within)]
      · rw [linkLevels_of_lt (Nat.lt_succ_self level), startAt_self]

end Placement

end SmallWorld
