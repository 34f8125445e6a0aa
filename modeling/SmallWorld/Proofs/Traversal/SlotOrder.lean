import SmallWorld.Proofs.Traversal.Widening

/-!
# The order of the slots

The neighbours of a point are looked at in the order of their slots.  Where
no two points are equally distant this order has no effect: a pass of a
descent ends at the nearest neighbour in any case (`nearest_eq_of_perm`), and
a sweep keeps the nearest points seen.  Two sweeps over terrains that differ
in the order of the neighbours may open different hits, because a hit is
opened if there is room for it when its turn comes.  But what only one of
them has opened is displaced before the others have had their turn, and a hit
that is not kept ends the sweep when it comes first
(`Sound.isSettled_eq_false_iff`).  So the open hits that are kept are the same
(`Alike`), and both sweeps take the same steps.
-/

namespace SmallWorld

namespace Terrain

variable {terrain first second : Terrain} {inside : PointId → Prop}

/-- Two terrains with the same distances whose points inside have the same
neighbours, in any order. -/
structure Rearranges (inside : PointId → Prop) (first second : Terrain) :
    Prop where
  distance_eq : second.distance = first.distance
  perm : ∀ {id}, inside id → (first.adjacent id).Perm (second.adjacent id)

/-- Of two neighbours the nearer one prevails, whichever comes first. -/
theorem nearest_swap {near far : PointId}
    (less : terrain.distance near < terrain.distance far) (best : Hit) :
    terrain.nearest best [near, far] = terrain.nearest best [far, near] := by
  have notLess : ¬ terrain.distance far < terrain.distance near :=
    fun greater => Scalar.lt_irrefl _ (Scalar.lt_trans less greater)
  simp only [nearest, List.foldl_cons, List.foldl_nil]
  by_cases farNearer : terrain.distance far < best.distance
  · have nearNearer := Scalar.lt_trans less farNearer
    simp only [hit, if_pos nearNearer, if_pos farNearer, if_pos less,
      if_neg notLess]
  · by_cases nearNearer : terrain.distance near < best.distance
    · simp only [hit, if_pos nearNearer, if_neg farNearer, if_neg notLess]
    · simp only [if_neg nearNearer, if_neg farNearer]

/-- The nearest of some neighbours does not depend on their order. -/
theorem nearest_eq_of_perm (comparable : terrain.Comparable inside)
    (separated : terrain.Separated inside) (best : Hit)
    {neighbors neighbors' : List PointId} (perm : neighbors.Perm neighbors')
    (neighborsInside : ∀ neighbor ∈ neighbors, inside neighbor) :
    terrain.nearest best neighbors = terrain.nearest best neighbors' := by
  refine perm.foldl_eq' (fun first member second member' best => ?_) best
  have isInside := neighborsInside first member
  have isInside' := neighborsInside second member'
  change terrain.nearest best [first, second] =
    terrain.nearest best [second, first]
  rcases lt_trichotomy (terrain.distance first).rank
    (terrain.distance second).rank with less | equal | greater
  · exact nearest_swap ((comparable isInside isInside').mpr less) best
  · rw [separated first second isInside isInside'
      (Scalar.rank_injective equal)]
  · exact (nearest_swap ((comparable isInside' isInside).mpr greater)
      best).symm

theorem Rearranges.settle_eq (rearranges : Rearranges inside first second)
    (comparable : first.Comparable inside) (separated : first.Separated inside)
    (closed : ∀ {id neighbor}, inside id → neighbor ∈ first.adjacent id →
      inside neighbor)
    (fuel : Nat) {best : Hit} (start : inside best.id) :
    second.settle fuel best = first.settle fuel best := by
  induction fuel generalizing best with
  | zero => rfl
  | succ fuel inductionHypothesis =>
      have perm := rearranges.perm start
      have passed : second.nearest best (second.adjacent best.id) =
          first.nearest best (first.adjacent best.id) := by
        rw [first.nearest_eq_of_perm comparable separated best perm
          fun _ edge => closed start edge]
        simp only [nearest, hit, rearranges.distance_eq]
      have next := nearest_ends closed start
      rw [settle, settle, passed, inductionHypothesis next.1, perm.length_eq]

end Terrain

/-- A descent ends at the same hit after the same work. -/
theorem descendOver_eq_of_rearranges (inside : Nat → PointId → Prop)
    {first second : Nat → Terrain} {above : Nat}
    (lower : ∀ {level level' id}, inside level id → level' ≤ level →
      inside level' id)
    (rearranges : ∀ level, (first level).Rearranges (inside level)
      (second level))
    (comparable : ∀ level, (first level).Comparable (inside level))
    (separated : ∀ level, (first level).Separated (inside level))
    (closed : ∀ level {id neighbor}, inside level id →
      neighbor ∈ (first level).adjacent id → inside level neighbor)
    (fuel : Nat) {level : Nat} {best : Hit} (start : inside level best.id) :
    descendOver second fuel above level best =
      descendOver first fuel above level best := by
  induction level generalizing best with
  | zero => rfl
  | succ level inductionHypothesis =>
      have settled := (rearranges (level + 1)).settle_eq
        (comparable (level + 1)) (separated (level + 1)) (closed (level + 1))
        fuel start
      have ends := ((first (level + 1)).settle_ends (closed (level + 1)) fuel
        start).1
      rw [descendOver, descendOver, settled]
      simp only [inductionHypothesis (lower ends (Nat.le_succ level))]

namespace Sweep

variable {terrain second : Terrain} {inside : PointId → Prop}
  {width : Nat} {sweep earlier later left right : Sweep}

/-- What has been added to a sweep by meeting some points. -/
structure Gathers (ids : List PointId) (earlier later : Sweep) : Prop where
  mem_seen_iff : ∀ id, id ∈ later.seen ↔ id ∈ earlier.seen ∨ id ∈ ids
  measured_eq : later.measured + earlier.seen.length =
    earlier.measured + later.seen.length
  expanded_eq : later.expanded = earlier.expanded
  frontier_subset : earlier.frontier ⊆ later.frontier
  opened_fresh : ∀ hit ∈ later.frontier,
    hit ∈ earlier.frontier ∨ hit.id ∉ earlier.seen
  kept_opened : ∀ hit ∈ later.kept, hit ∈ earlier.kept ∨
    hit ∈ later.frontier ∧ hit.id ∉ earlier.seen

theorem Gathers.refl (sweep : Sweep) : Gathers [] sweep sweep where
  mem_seen_iff _ := by simp
  measured_eq := rfl
  expanded_eq := rfl
  frontier_subset := List.Subset.refl _
  opened_fresh _ opened := Or.inl opened
  kept_opened _ kept := Or.inl kept

theorem gathers_meet (terrain : Terrain) (width : Nat) (sweep : Sweep)
    (id : PointId) :
    Gathers [id] sweep (sweep.meet terrain width id) := by
  by_cases known : id ∈ sweep.seen
  · rw [meet_of_mem known]
    refine { Gathers.refl sweep with mem_seen_iff := fun other => ?_ }
    rw [List.mem_singleton, or_iff_left_of_imp]
    rintro rfl
    exact known
  · have seen : ∀ other, other ∈ id :: sweep.seen ↔
        other ∈ sweep.seen ∨ other ∈ [id] := by
      simp [or_comm]
    have measured : sweep.measured + 1 + sweep.seen.length =
        sweep.measured + (id :: sweep.seen).length := by
      rw [List.length_cons]
      omega
    cases room : sweep.hasRoom width (terrain.distance id) with
    | true =>
        rw [meet_of_room known room]
        refine ⟨seen, measured, rfl, fun hit opened =>
          Hit.mem_insert.mpr (Or.inr opened), fun hit opened => ?_,
          fun hit kept => ?_⟩
        · rcases Hit.mem_insert.mp opened with rfl | old
          · exact Or.inr known
          · exact Or.inl old
        · rcases Hit.mem_insert.mp (List.mem_of_mem_take kept) with rfl | old
          · exact Or.inr ⟨Hit.mem_insert.mpr (Or.inl rfl), known⟩
          · exact Or.inl old
    | false =>
        rw [meet_of_full known room]
        exact { Gathers.refl sweep with
          mem_seen_iff := seen, measured_eq := measured }

theorem Gathers.trans {ids ids' : List PointId} {middle : Sweep}
    (before : Gathers ids earlier middle) (after : Gathers ids' middle later) :
    Gathers (ids ++ ids') earlier later where
  mem_seen_iff id := by
    rw [after.mem_seen_iff, before.mem_seen_iff, List.mem_append, or_assoc]
  measured_eq := by
    have := before.measured_eq
    have := after.measured_eq
    omega
  expanded_eq := after.expanded_eq.trans before.expanded_eq
  frontier_subset := List.Subset.trans before.frontier_subset
    after.frontier_subset
  opened_fresh hit opened := by
    rcases after.opened_fresh hit opened with old | fresh
    · exact before.opened_fresh hit old
    · exact Or.inr fun seen =>
        fresh ((before.mem_seen_iff hit.id).mpr (Or.inl seen))
  kept_opened hit kept := by
    rcases after.kept_opened hit kept with old | ⟨opened, fresh⟩
    · exact (before.kept_opened hit old).imp_right fun ⟨opened, fresh⟩ =>
        ⟨after.frontier_subset opened, fresh⟩
    · exact Or.inr ⟨opened, fun seen =>
        fresh ((before.mem_seen_iff hit.id).mpr (Or.inl seen))⟩

theorem gathers_foldl_meet (terrain : Terrain) (width : Nat)
    (ids : List PointId) (sweep : Sweep) :
    Gathers ids sweep (ids.foldl (meet terrain width) sweep) := by
  induction ids generalizing sweep with
  | nil => exact Gathers.refl sweep
  | cons id rest inductionHypothesis =>
      exact (gathers_meet terrain width sweep id).trans (inductionHypothesis _)

theorem Sound.foldl_meet (sound : sweep.Sound terrain inside width)
    (comparable : terrain.Comparable inside) {ids : List PointId}
    (idsInside : ∀ id ∈ ids, inside id) :
    (ids.foldl (Sweep.meet terrain width) sweep).Sound terrain inside width :=
  foldl_meet_induction (motive := Sound terrain inside width)
    (fun member earlier => earlier.meet comparable (idsInside _ member)) sound

/-- A sweep goes on as long as its nearest open hit is kept. -/
theorem Sound.isSettled_eq_false_iff
    (sound : sweep.Sound terrain inside width)
    (separated : terrain.Separated inside)
    (comparable : terrain.Comparable inside) (widthPos : 0 < width)
    {next : Hit} (opened : next ∈ sweep.frontier) :
    sweep.isSettled width next = false ↔ next ∈ sweep.kept := by
  have seen := sound.frontier_seen next opened
  have settled := sound.isSettled_iff comparable widthPos seen
  rw [Bool.eq_false_iff, Ne, settled]
  constructor
  · intro unsettled
    by_contra dropped
    obtain ⟨member, marked⟩ := Terrain.mem_hits.mp seen
    have full := sound.length_eq_of_notMem member (marked ▸ dropped)
    exact unsettled ⟨full.ge, fun hit kept =>
      sound.rank_lt separated seen dropped kept⟩
  · rintro kept ⟨_, nearer⟩
    exact lt_irrefl _ (nearer next kept)

theorem Sound.kept_eq_of_perm (leftSound : left.Sound terrain inside width)
    (rightSound : right.Sound terrain inside width)
    (separated : terrain.Separated inside)
    (seen_perm : left.seen.Perm right.seen) : left.kept = right.kept := by
  rw [leftSound.kept_eq_take separated, rightSound.kept_eq_take separated]
  exact congrArg (List.take width)
    (Hit.sort_eq_of_perm (seen_perm.map terrain.hit))

/-- Sweeps that have seen the same points in different orders, and have the
same of their kept hits open. -/
structure Alike (terrain : Terrain) (inside : PointId → Prop) (width : Nat)
    (left right : Sweep) : Prop where
  leftSound : left.Sound terrain inside width
  rightSound : right.Sound terrain inside width
  seen_perm : left.seen.Perm right.seen
  measured_eq : left.measured = right.measured
  expanded_eq : left.expanded = right.expanded
  open_iff : ∀ hit ∈ left.kept, hit ∈ left.frontier ↔ hit ∈ right.frontier

namespace Alike

theorem of_sound (sound : sweep.Sound terrain inside width) :
    Alike terrain inside width sweep sweep where
  leftSound := sound
  rightSound := sound
  seen_perm := List.Perm.refl _
  measured_eq := rfl
  expanded_eq := rfl
  open_iff _ _ := Iff.rfl

variable (separated : terrain.Separated inside)
include separated

theorem kept_eq (alike : Alike terrain inside width left right) :
    left.kept = right.kept :=
  alike.leftSound.kept_eq_of_perm alike.rightSound separated alike.seen_perm

theorem symm (alike : Alike terrain inside width left right) :
    Alike terrain inside width right left where
  leftSound := alike.rightSound
  rightSound := alike.leftSound
  seen_perm := alike.seen_perm.symm
  measured_eq := alike.measured_eq.symm
  expanded_eq := alike.expanded_eq.symm
  open_iff hit kept :=
    (alike.open_iff hit (alike.kept_eq separated ▸ kept)).symm

variable (comparable : terrain.Comparable inside) (widthPos : 0 < width)
include comparable widthPos

/-- While one of two sweeps runs, their nearest open hits agree. -/
theorem frontier_eq_cons (alike : Alike terrain inside width left right)
    {next : Hit} {rest : List Hit} (open_ : left.frontier = next :: rest)
    (unsettled : left.isSettled width next = false) :
    ∃ rest', right.frontier = next :: rest' ∧
      right.isSettled width next = false := by
  have kept_eq := alike.kept_eq separated
  have nextOpen : next ∈ left.frontier := open_ ▸ List.mem_cons_self
  have kept := (alike.leftSound.isSettled_eq_false_iff separated comparable
    widthPos nextOpen).mp unsettled
  have nextOpened := (alike.open_iff next kept).mp nextOpen
  have unsettled' := (alike.rightSound.isSettled_eq_false_iff separated
    comparable widthPos nextOpened).mpr (kept_eq ▸ kept)
  obtain ⟨head, rest', open'⟩ :=
    List.exists_cons_of_ne_nil (List.ne_nil_of_mem nextOpened)
  have headOpened : head ∈ right.frontier := open' ▸ List.mem_cons_self
  have headLe : head.le next = true := by
    have ordered := alike.rightSound.frontier_ordered
    rw [open'] at ordered nextOpened
    exact Hit.head_le ordered nextOpened
  have headKept : head ∈ left.kept := by
    by_contra dropped
    have farther := alike.rightSound.rank_lt separated
      (alike.rightSound.frontier_seen head headOpened)
      (kept_eq ▸ dropped) (kept_eq ▸ kept)
    exact farther.not_ge (Hit.rank_le headLe)
  have nextLe : next.le head = true := by
    have ordered := alike.leftSound.frontier_ordered
    have headOpen := (alike.open_iff head headKept).mpr headOpened
    rw [open_] at ordered headOpen
    exact Hit.head_le ordered headOpen
  rw [Hit.le_antisymm headLe nextLe] at open'
  exact ⟨rest', open', unsettled'⟩

/-- While one of two sweeps runs, the other one does. -/
theorem running (alike : Alike terrain inside width left right)
    (running : left.stopped width = false) : right.stopped width = false := by
  obtain ⟨next, rest, open_, unsettled, _⟩ :=
    step_of_not_stopped terrain running
  obtain ⟨rest', open', unsettled'⟩ := alike.frontier_eq_cons separated
    comparable widthPos open_ unsettled
  unfold stopped
  rw [open']
  exact unsettled'

omit separated comparable widthPos in
theorem close (alike : Alike terrain inside width left right) {next : Hit}
    {rest rest' : List Hit} (open_ : left.frontier = next :: rest)
    (open' : right.frontier = next :: rest') :
    Alike terrain inside width
      { left with frontier := rest, expanded := left.expanded + 1 }
      { right with frontier := rest', expanded := right.expanded + 1 } where
  leftSound := alike.leftSound.close open_ _
  rightSound := alike.rightSound.close open' _
  seen_perm := alike.seen_perm
  measured_eq := alike.measured_eq
  expanded_eq := congrArg (· + 1) alike.expanded_eq
  open_iff hit kept := by
    have distinct := alike.leftSound.frontier_nodup
    have distinct' := alike.rightSound.frontier_nodup
    have same := alike.open_iff hit kept
    rw [open_, List.nodup_cons] at distinct
    rw [open', List.nodup_cons] at distinct'
    rw [open_, open', List.mem_cons, List.mem_cons] at same
    by_cases isNext : hit = next
    · subst isNext
      exact iff_of_false distinct.1 distinct'.1
    · simpa only [isNext, false_or] using same

omit separated comparable widthPos in
/-- A kept hit that one side has open is open on the other side: there it was
open before, or it is fresh and has been opened to be kept. -/
theorem mem_frontier (alike : Alike terrain inside width left right)
    {ids ids' : List PointId} {left' right' : Sweep}
    (gathers : Gathers ids left left') (gathers' : Gathers ids' right right')
    {hit : Hit} (kept : hit ∈ left'.kept) (kept' : hit ∈ right'.kept)
    (opened : hit ∈ left'.frontier) : hit ∈ right'.frontier := by
  have leftSeen : ∀ {hit : Hit}, hit ∈ left.frontier → hit.id ∈ left.seen :=
    fun {hit} old => (Terrain.mem_hits.mp
      (alike.leftSound.frontier_seen hit old)).1
  have rightSeen : ∀ {hit : Hit}, hit ∈ right.kept → hit.id ∈ left.seen :=
    fun {hit} old => alike.seen_perm.mem_iff.mpr
      (Terrain.mem_hits.mp (alike.rightSound.kept_seen hit old)).1
  rcases gathers.opened_fresh hit opened with old | fresh
  · have wasKept := (gathers.kept_opened hit kept).resolve_right
      fun ⟨_, fresh⟩ => fresh (leftSeen old)
    exact gathers'.frontier_subset ((alike.open_iff hit wasKept).mp old)
  · exact ((gathers'.kept_opened hit kept').resolve_left
      fun old => fresh (rightSeen old)).1

omit widthPos in
theorem foldl_meet (alike : Alike terrain inside width left right)
    {ids ids' : List PointId} (perm : ids.Perm ids')
    (idsInside : ∀ id ∈ ids, inside id) :
    Alike terrain inside width (ids.foldl (Sweep.meet terrain width) left)
      (ids'.foldl (Sweep.meet terrain width) right) := by
  have gathers := gathers_foldl_meet terrain width ids left
  have gathers' := gathers_foldl_meet terrain width ids' right
  have leftSound := alike.leftSound.foldl_meet comparable idsInside
  have rightSound := alike.rightSound.foldl_meet comparable
    fun id member => idsInside id (perm.mem_iff.mpr member)
  generalize ids.foldl (Sweep.meet terrain width) left = left' at *
  generalize ids'.foldl (Sweep.meet terrain width) right = right' at *
  have seen_perm : left'.seen.Perm right'.seen := by
    refine (List.perm_ext_iff_of_nodup leftSound.seen_nodup
      rightSound.seen_nodup).mpr fun id => ?_
    rw [gathers.mem_seen_iff, gathers'.mem_seen_iff, perm.mem_iff,
      alike.seen_perm.mem_iff]
  have kept_eq :=
    leftSound.kept_eq_of_perm rightSound separated seen_perm
  refine ⟨leftSound, rightSound, seen_perm, ?_, ?_, fun hit kept => ?_⟩
  · have := gathers.measured_eq
    have := gathers'.measured_eq
    have := alike.measured_eq
    have := alike.seen_perm.length_eq
    have := seen_perm.length_eq
    omega
  · rw [gathers.expanded_eq, gathers'.expanded_eq, alike.expanded_eq]
  · have kept' : hit ∈ right'.kept := kept_eq ▸ kept
    exact ⟨alike.mem_frontier gathers gathers' kept kept',
      (alike.symm separated).mem_frontier gathers' gathers kept' kept⟩

theorem step (rearranges : terrain.Rearranges inside second)
    (closed : ∀ {id neighbor}, inside id → neighbor ∈ terrain.adjacent id →
      inside neighbor)
    (alike : Alike terrain inside width left right) :
    Alike terrain inside width (left.step terrain width)
      (right.step second width) := by
  cases running : left.stopped width with
  | true =>
      have stopped : right.stopped width = true := by
        by_contra running'
        have := (alike.symm separated).running separated comparable widthPos
          (Bool.eq_false_iff.mpr running')
        rw [running] at this
        cases this
      rwa [step_of_stopped running, step_of_stopped stopped]
  | false =>
      obtain ⟨next, rest, open_, unsettled, stepped⟩ :=
        step_of_not_stopped terrain running
      obtain ⟨rest', open', unsettled'⟩ := alike.frontier_eq_cons separated
        comparable widthPos open_ unsettled
      have nextInside : inside next.id := alike.leftSound.seen_inside _
        (Terrain.mem_hits.mp (alike.leftSound.frontier_seen next
          (open_ ▸ List.mem_cons_self))).1
      have meets : Sweep.meet second width = Sweep.meet terrain width := by
        funext sweep id
        simp only [meet, Terrain.hit, rearranges.distance_eq]
      rw [stepped, step_of_unsettled open' unsettled', expand, expand, meets]
      exact (alike.close open_ open').foldl_meet separated comparable
        (rearranges.perm nextInside) fun _ edge => closed nextInside edge

theorem advance (rearranges : terrain.Rearranges inside second)
    (closed : ∀ {id neighbor}, inside id → neighbor ∈ terrain.adjacent id →
      inside neighbor)
    (alike : Alike terrain inside width left right) (count : Nat) :
    Alike terrain inside width (left.advance terrain width count)
      (right.advance second width count) := by
  induction count generalizing left right with
  | zero => exact alike
  | succ count inductionHypothesis =>
      exact inductionHypothesis
        (alike.step separated comparable widthPos rearranges closed)

end Alike

/-- What the order of the slots does not affect: the kept hits, the number of
points seen and the work. -/
theorem alike_sweep (separated : terrain.Separated inside)
    (comparable : terrain.Comparable inside) (widthPos : 0 < width)
    (rearranges : terrain.Rearranges inside second)
    (closed : ∀ {id neighbor}, inside id → neighbor ∈ terrain.adjacent id →
      inside neighbor) (size : Nat) {seeds : List Hit}
    (marked : ∀ seed ∈ seeds, terrain.Marks seed)
    (seedsInside : ∀ seed ∈ seeds, inside seed.id) :
    (terrain.sweep size width seeds).Alike terrain inside width
      (second.sweep size width seeds) :=
  (Alike.of_sound (Sound.ofSeeds marked seedsInside)).advance separated
    comparable widthPos rearranges closed _

end Sweep

end SmallWorld
