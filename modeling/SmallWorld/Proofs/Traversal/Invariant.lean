import SmallWorld.Proofs.Traversal.Sweep

/-!
# What a sweep keeps

After any number of steps the kept hits are as many of the points seen as
there is room for, in order, and no other point seen is nearer than one of
them (`Sweep.Sound`).  Every kept hit is either still open or has had all its
neighbours met (`Sweep.Covered`).

Equally distant points are a subtlety: a hit at the distance of the worst
kept one does not displace it, even if its number is lower.  So the kept hits
are determined only up to the choice among equally distant ones.
-/

namespace SmallWorld

namespace Terrain

/-- Distances inside compare as their ranks do. -/
def Comparable (terrain : Terrain) (inside : PointId → Prop) : Prop :=
  ∀ {first second}, inside first → inside second →
    (terrain.distance first < terrain.distance second ↔
      (terrain.distance first).rank < (terrain.distance second).rank)

def hits (terrain : Terrain) (ids : List PointId) : List Hit :=
  ids.map terrain.hit

theorem hit_injective (terrain : Terrain) :
    Function.Injective terrain.hit :=
  fun _ _ equal => congrArg Hit.id equal

theorem mem_hits {terrain : Terrain} {ids : List PointId} {hit : Hit} :
    hit ∈ terrain.hits ids ↔ hit.id ∈ ids ∧ terrain.Marks hit := by
  unfold hits Marks
  rw [List.mem_map]
  constructor
  · rintro ⟨id, member, rfl⟩
    exact ⟨member, rfl⟩
  · rintro ⟨member, marked⟩
    exact ⟨hit.id, member, marked.symm⟩

theorem hit_mem_hits {terrain : Terrain} {ids : List PointId} {id : PointId} :
    terrain.hit id ∈ terrain.hits ids ↔ id ∈ ids := by
  rw [mem_hits]
  exact and_iff_left rfl

theorem sort_hits_sublist (terrain : Terrain)
    {few many : List PointId} (distinct : few.Nodup) (subset : few ⊆ many) :
    (Hit.sort (terrain.hits few)).Sublist (Hit.sort (terrain.hits many)) :=
  Hit.sort_sublist ((distinct.map terrain.hit_injective).subperm
    (List.map_subset _ subset))

end Terrain

namespace Sweep

variable {terrain : Terrain} {inside : PointId → Prop} {width : Nat}
  {sweep : Sweep} {id : PointId}

/-- The open and the kept hits are of points seen, and the kept ones are
nearest among these. -/
structure Sound (terrain : Terrain) (inside : PointId → Prop) (width : Nat)
    (sweep : Sweep) : Prop where
  seen_nodup : sweep.seen.Nodup
  seen_inside : ∀ id ∈ sweep.seen, inside id
  frontier_seen : ∀ hit ∈ sweep.frontier, hit ∈ terrain.hits sweep.seen
  frontier_ordered : Hit.Ordered sweep.frontier
  frontier_nodup : sweep.frontier.Nodup
  kept_seen : ∀ hit ∈ sweep.kept, hit ∈ terrain.hits sweep.seen
  kept_ordered : Hit.Ordered sweep.kept
  kept_nodup : sweep.kept.Nodup
  kept_length : sweep.kept.length = min width sweep.seen.length
  rank_le : ∀ id ∈ sweep.seen, terrain.hit id ∉ sweep.kept →
    ∀ hit ∈ sweep.kept, hit.distance.rank ≤ (terrain.distance id).rank

namespace Sound

theorem empty (terrain : Terrain) (inside : PointId → Prop) (width : Nat) :
    Sweep.empty.Sound terrain inside width where
  seen_nodup := List.nodup_nil
  seen_inside := by simp [Sweep.empty]
  frontier_seen := by simp [Sweep.empty]
  frontier_ordered := List.Pairwise.nil
  frontier_nodup := List.nodup_nil
  kept_seen := by simp [Sweep.empty]
  kept_ordered := List.Pairwise.nil
  kept_nodup := List.nodup_nil
  kept_length := by simp [Sweep.empty]
  rank_le := by simp [Sweep.empty]

theorem length_lt_of_notMem (sound : sweep.Sound terrain inside width)
    (seen : id ∈ sweep.seen) (dropped : terrain.hit id ∉ sweep.kept) :
    sweep.kept.length < sweep.seen.length := by
  have distinct : (terrain.hit id :: sweep.kept).Nodup :=
    List.nodup_cons.mpr ⟨dropped, sound.kept_nodup⟩
  have all : (terrain.hit id :: sweep.kept) ⊆ terrain.hits sweep.seen := by
    intro hit member
    rcases List.mem_cons.mp member with rfl | kept
    · exact Terrain.hit_mem_hits.mpr seen
    · exact sound.kept_seen hit kept
  have := (distinct.subperm all).length_le
  rwa [List.length_cons, Terrain.hits, List.length_map] at this

/-- Beside the kept hits there are other points seen only if there is no room
for them. -/
theorem length_eq_of_notMem (sound : sweep.Sound terrain inside width)
    (seen : id ∈ sweep.seen) (dropped : terrain.hit id ∉ sweep.kept) :
    sweep.kept.length = width := by
  have fewer := sound.length_lt_of_notMem seen dropped
  have := sound.kept_length
  omega

/-- A point that is opened when it is seen for the first time. -/
theorem keep (sound : sweep.Sound terrain inside width) (isInside : inside id)
    (fresh : id ∉ sweep.seen) (measured : Nat) :
    ({ sweep with seen := id :: sweep.seen, measured }.keep width
      (terrain.hit id)).Sound terrain inside width := by
  have notMem : ∀ hits : List Hit, (∀ hit ∈ hits,
      hit ∈ terrain.hits sweep.seen) → terrain.hit id ∉ hits :=
    fun hits all member => fresh (Terrain.hit_mem_hits.mp (all _ member))
  have seenLater : ∀ hit ∈ terrain.hits sweep.seen,
      hit ∈ terrain.hits (id :: sweep.seen) :=
    fun hit member => List.mem_cons_of_mem _ member
  have inserted : ∀ {hits : List Hit}, (∀ hit ∈ hits,
      hit ∈ terrain.hits sweep.seen) → ∀ hit ∈ (terrain.hit id).insert hits,
        hit ∈ terrain.hits (id :: sweep.seen) := by
    intro hits all hit member
    rcases Hit.mem_insert.mp member with rfl | old
    · exact List.mem_cons_self
    · exact seenLater hit (all hit old)
  have insertedNodup : ∀ {hits : List Hit}, hits.Nodup → (∀ hit ∈ hits,
      hit ∈ terrain.hits sweep.seen) →
        ((terrain.hit id).insert hits).Nodup := fun distinct all =>
    (Hit.insert_perm _ _).nodup_iff.mpr
      (List.nodup_cons.mpr ⟨notMem _ all, distinct⟩)
  have longOrdered : Hit.Ordered ((terrain.hit id).insert sweep.kept) :=
    Hit.ordered_insert sound.kept_ordered
  refine ⟨List.nodup_cons.mpr ⟨fresh, sound.seen_nodup⟩, ?_,
    inserted sound.frontier_seen, Hit.ordered_insert sound.frontier_ordered,
    insertedNodup sound.frontier_nodup sound.frontier_seen, ?_, ?_, ?_, ?_, ?_⟩
  · intro other member
    rcases List.mem_cons.mp member with rfl | old
    · exact isInside
    · exact sound.seen_inside other old
  · exact fun hit member =>
      inserted sound.kept_seen hit (List.mem_of_mem_take member)
  · exact longOrdered.sublist (List.take_sublist _ _)
  · exact (insertedNodup sound.kept_nodup sound.kept_seen).sublist
      (List.take_sublist _ _)
  · change (((terrain.hit id).insert sweep.kept).take width).length =
      min width (id :: sweep.seen).length
    have := sound.kept_length
    rw [List.length_take, Hit.length_insert, List.length_cons]
    omega
  · intro other seen dropped hit taken
    change other ∈ id :: sweep.seen at seen
    change terrain.hit other ∉
      ((terrain.hit id).insert sweep.kept).take width at dropped
    change hit ∈ ((terrain.hit id).insert sweep.kept).take width at taken
    by_cases listed : terrain.hit other ∈ (terrain.hit id).insert sweep.kept
    · exact Hit.rank_le (Hit.le_of_mem_take longOrdered taken listed dropped)
    · obtain ⟨different, notKept⟩ := not_or.mp (mt Hit.mem_insert.mpr listed)
      have earlier : other ∈ sweep.seen := by
        refine (List.mem_cons.mp seen).resolve_left fun same => ?_
        exact different (congrArg terrain.hit same)
      rcases Hit.mem_insert.mp (List.mem_of_mem_take taken) with rfl | old
      · -- One of the hits kept before has been displaced.
        have full := sound.length_eq_of_notMem earlier notKept
        obtain ⟨displaced, inLong, gone⟩ : ∃ displaced ∈
            (terrain.hit id).insert sweep.kept, displaced ∉
              ((terrain.hit id).insert sweep.kept).take width := by
          by_contra none
          push Not at none
          have := ((insertedNodup sound.kept_nodup
            sound.kept_seen).subperm none).length_le
          rw [List.length_take, Hit.length_insert] at this
          omega
        have kept : displaced ∈ sweep.kept := by
          refine (Hit.mem_insert.mp inLong).resolve_left ?_
          rintro rfl
          exact gone taken
        exact (Hit.rank_le
          (Hit.le_of_mem_take longOrdered taken inLong gone)).trans
            (sound.rank_le other earlier notKept displaced kept)
      · exact sound.rank_le other earlier notKept hit old

theorem hasRoom_iff (sound : sweep.Sound terrain inside width)
    (comparable : terrain.Comparable inside) (isInside : inside id) :
    sweep.hasRoom width (terrain.distance id) = true ↔
      sweep.kept.length < width ∨ ∃ hit ∈ sweep.kept,
        (terrain.distance id).rank < hit.distance.rank := by
  unfold hasRoom
  split
  · next room => exact iff_of_true rfl (Or.inl room)
  · next full =>
      rw [or_iff_right full]
      split
      · next worst last =>
          have worstKept := List.mem_of_getLast? last
          obtain ⟨worstSeen, marked⟩ :=
            Terrain.mem_hits.mp (sound.kept_seen worst worstKept)
          have less := comparable isInside (sound.seen_inside _ worstSeen)
          rw [decide_eq_true_iff, marked]
          refine less.trans ⟨fun nearer => ⟨worst, worstKept, ?_⟩, ?_⟩
          · rwa [marked]
          · rintro ⟨hit, kept, nearer⟩
            have order := Hit.rank_le
              (Hit.le_getLast sound.kept_ordered last kept)
            rw [marked] at order
            exact nearer.trans_le order
      · next none =>
          rw [List.getLast?_eq_none_iff.mp none]
          simp

theorem isSettled_iff (sound : sweep.Sound terrain inside width)
    (comparable : terrain.Comparable inside) (widthPos : 0 < width)
    {next : Hit} (nextSeen : next ∈ terrain.hits sweep.seen) :
    sweep.isSettled width next = true ↔
      width ≤ sweep.kept.length ∧ ∀ hit ∈ sweep.kept,
        hit.distance.rank < next.distance.rank := by
  obtain ⟨seen, nextMarked⟩ := Terrain.mem_hits.mp nextSeen
  unfold isSettled
  split
  · next room => exact iff_of_false nofun fun both => by omega
  · next full =>
      rw [and_iff_right (Nat.not_lt.mp full)]
      split
      · next worst last =>
          have worstKept := List.mem_of_getLast? last
          obtain ⟨worstSeen, marked⟩ :=
            Terrain.mem_hits.mp (sound.kept_seen worst worstKept)
          have less := comparable (sound.seen_inside _ worstSeen)
            (sound.seen_inside _ seen)
          rw [decide_eq_true_iff]
          constructor
          · intro nearer hit kept
            have order := Hit.rank_le
              (Hit.le_getLast sound.kept_ordered last kept)
            rw [marked, nextMarked] at nearer
            rw [marked] at order
            rw [nextMarked]
            exact order.trans_lt (less.mp nearer)
          · intro nearer
            have worstNearer := nearer worst worstKept
            rw [marked, nextMarked] at worstNearer ⊢
            exact less.mpr worstNearer
      · next none =>
          rw [List.getLast?_eq_none_iff.mp none] at full
          exact (full widthPos).elim

theorem note (sound : sweep.Sound terrain inside width)
    (comparable : terrain.Comparable inside) (isInside : inside id)
    (fresh : id ∉ sweep.seen)
    (noRoom : sweep.hasRoom width (terrain.distance id) = false) :
    (sweep.note id).Sound terrain inside width := by
  have seenLater : ∀ hit ∈ terrain.hits sweep.seen,
      hit ∈ terrain.hits (id :: sweep.seen) :=
    fun hit member => List.mem_cons_of_mem _ member
  obtain ⟨full, noneFarther⟩ := not_or.mp
    (mt (sound.hasRoom_iff comparable isInside).mpr
      (Bool.eq_false_iff.mp noRoom))
  refine ⟨List.nodup_cons.mpr ⟨fresh, sound.seen_nodup⟩, ?_,
    fun hit member => seenLater hit (sound.frontier_seen hit member),
    sound.frontier_ordered, sound.frontier_nodup,
    fun hit member => seenLater hit (sound.kept_seen hit member),
    sound.kept_ordered, sound.kept_nodup, ?_, ?_⟩
  · intro other member
    rcases List.mem_cons.mp member with rfl | old
    · exact isInside
    · exact sound.seen_inside other old
  · change sweep.kept.length = min width (id :: sweep.seen).length
    have := sound.kept_length
    rw [List.length_cons]
    omega
  · intro other seen dropped hit kept
    change hit ∈ sweep.kept at kept
    rcases List.mem_cons.mp seen with rfl | earlier
    · by_contra nearer
      exact noneFarther ⟨hit, kept, not_le.mp nearer⟩
    · exact sound.rank_le other earlier dropped hit kept

theorem meet (sound : sweep.Sound terrain inside width)
    (comparable : terrain.Comparable inside) (isInside : inside id) :
    (sweep.meet terrain width id).Sound terrain inside width := by
  unfold Sweep.meet
  split
  · exact sound
  · next fresh =>
      split
      · exact sound.keep isInside fresh (sweep.measured + 1)
      · next noRoom =>
          exact sound.note comparable isInside fresh
            (Bool.eq_false_iff.mpr noRoom)

theorem close (sound : sweep.Sound terrain inside width) {next : Hit}
    {rest : List Hit} (open_ : sweep.frontier = next :: rest)
    (expanded : Nat) :
    { sweep with frontier := rest, expanded }.Sound terrain inside width := by
  have ordered := sound.frontier_ordered
  have distinct := sound.frontier_nodup
  rw [open_] at ordered distinct
  exact { sound with
    frontier_seen := fun hit member =>
      sound.frontier_seen hit (open_ ▸ List.mem_cons_of_mem _ member)
    frontier_ordered := ordered.of_cons
    frontier_nodup := distinct.of_cons }

theorem expand (sound : sweep.Sound terrain inside width)
    (comparable : terrain.Comparable inside)
    (closed : ∀ {id neighbor}, inside id → neighbor ∈ terrain.adjacent id →
      inside neighbor) {next : Hit} {rest : List Hit}
    (open_ : sweep.frontier = next :: rest) :
    (sweep.expand terrain width next rest).Sound terrain inside width := by
  have nextSeen := (Terrain.mem_hits.mp (sound.frontier_seen next
    (open_ ▸ List.mem_cons_self))).1
  exact expand_induction (motive := Sound terrain inside width)
    (sound.close open_ _) fun member earlier =>
      earlier.meet comparable (closed (sound.seen_inside _ nextSeen) member)

theorem advance (sound : sweep.Sound terrain inside width)
    (comparable : terrain.Comparable inside)
    (closed : ∀ {id neighbor}, inside id → neighbor ∈ terrain.adjacent id →
      inside neighbor) (count : Nat) :
    (sweep.advance terrain width count).Sound terrain inside width := by
  refine advance_induction (motive := Sound terrain inside width) ?_ count
    sound
  intro sweep earlier running
  obtain ⟨next, rest, open_, _, stepped⟩ :=
    step_of_not_stopped terrain running
  rw [stepped]
  exact earlier.expand comparable closed open_

theorem ofSeeds {seeds : List Hit} (marked : ∀ hit ∈ seeds,
    terrain.Marks hit) (seedsInside : ∀ hit ∈ seeds, inside hit.id) :
    (Sweep.ofSeeds width seeds).Sound terrain inside width := by
  unfold Sweep.ofSeeds
  have start := empty terrain inside width
  generalize Sweep.empty = sweep at start
  induction seeds generalizing sweep with
  | nil => exact start
  | cons hit rest inductionHypothesis =>
      refine inductionHypothesis
        (fun other member => marked other (List.mem_cons_of_mem _ member))
        (fun other member => seedsInside other
          (List.mem_cons_of_mem _ member)) _ ?_
      unfold Sweep.seed
      split
      · exact start
      · next fresh =>
          have here := start.keep (seedsInside hit List.mem_cons_self) fresh
            sweep.measured
          rwa [← marked hit List.mem_cons_self] at here

end Sound

/-- Whether all neighbours of a point have been met. -/
def Closed (terrain : Terrain) (sweep : Sweep) (id : PointId) : Prop :=
  ∀ neighbor ∈ terrain.adjacent id, neighbor ∈ sweep.seen

/-- Every kept hit, but for those of the given points, is open or closed. -/
def Covered (terrain : Terrain) (exempt : PointId → Prop) (sweep : Sweep) :
    Prop :=
  ∀ hit ∈ sweep.kept, ¬ exempt hit.id →
    hit ∈ sweep.frontier ∨ sweep.Closed terrain hit.id

theorem Covered.meet {exempt : PointId → Prop}
    (covered : sweep.Covered terrain exempt) (id : PointId) :
    (sweep.meet terrain width id).Covered terrain exempt := by
  have later : ∀ {known : PointId}, sweep.Closed terrain known →
      ∀ neighbor ∈ terrain.adjacent known, neighbor ∈ id :: sweep.seen :=
    fun closed neighbor member => List.mem_cons_of_mem _
      (closed neighbor member)
  unfold Sweep.meet
  split
  · exact covered
  · split
    · intro hit kept notExempt
      rcases Hit.mem_insert.mp (List.mem_of_mem_take kept) with rfl | old
      · exact Or.inl (Hit.mem_insert.mpr (Or.inl rfl))
      · exact (covered hit old notExempt).imp
          (fun opened => Hit.mem_insert.mpr (Or.inr opened)) later
    · intro hit kept notExempt
      exact (covered hit kept notExempt).imp_right later

theorem subset_seen_foldl_meet (ids : List PointId) (sweep : Sweep) :
    ∀ id ∈ ids, id ∈ (ids.foldl (meet terrain width) sweep).seen := by
  induction ids generalizing sweep with
  | nil => simp
  | cons id rest inductionHypothesis =>
      intro other member
      rcases List.mem_cons.mp member with rfl | inRest
      · have here : other ∈ (sweep.meet terrain width other).seen := by
          unfold Sweep.meet
          split
          · next known => exact known
          · split
            · exact List.mem_cons_self
            · exact List.mem_cons_self
        exact (before_foldl_meet _ rest).seen_suffix.subset here
      · exact inductionHypothesis _ other inRest

/-- A step closes the hit it takes. -/
theorem Covered.expand {exempt : PointId → Prop}
    (covered : sweep.Covered terrain exempt) {next : Hit} {rest : List Hit}
    (open_ : sweep.frontier = next :: rest) :
    (sweep.expand terrain width next rest).Covered terrain exempt := by
  have most : (sweep.expand terrain width next rest).Covered terrain
      fun id => exempt id ∨ id = next.id := expand_induction
    (motive := Covered terrain fun id => exempt id ∨ id = next.id)
    (by
      intro hit kept notExempt
      obtain ⟨notExempt, different⟩ := not_or.mp notExempt
      refine (covered hit kept notExempt).imp_left fun opened => ?_
      rw [open_] at opened
      exact (List.mem_cons.mp opened).resolve_left fun same =>
        different (congrArg Hit.id same))
    (fun _ earlier => earlier.meet _)
  intro hit kept notExempt
  by_cases same : hit.id = next.id
  · right
    rw [same]
    exact subset_seen_foldl_meet (terrain.adjacent next.id) _
  · exact most hit kept (not_or.mpr ⟨notExempt, same⟩)

theorem Covered.advance {exempt : PointId → Prop}
    (covered : sweep.Covered terrain exempt) (count : Nat) :
    (sweep.advance terrain width count).Covered terrain exempt := by
  refine advance_induction (motive := Covered terrain exempt) ?_ count
    covered
  intro sweep earlier running
  obtain ⟨next, rest, open_, _, stepped⟩ :=
    step_of_not_stopped terrain running
  rw [stepped]
  exact earlier.expand open_

theorem Covered.ofSeeds (seeds : List Hit) :
    (Sweep.ofSeeds width seeds).Covered terrain fun _ => False := by
  have all : ∀ (seeds : List Hit) (sweep : Sweep),
      (∀ hit ∈ sweep.kept, hit ∈ sweep.frontier) →
        ∀ hit ∈ (seeds.foldl (Sweep.seed width) sweep).kept,
          hit ∈ (seeds.foldl (Sweep.seed width) sweep).frontier := by
    intro seeds
    induction seeds with
    | nil => exact fun _ opened => opened
    | cons seed rest inductionHypothesis =>
        intro sweep opened
        refine inductionHypothesis (sweep.seed width seed) ?_
        unfold Sweep.seed
        split
        · exact opened
        · intro hit kept
          refine Hit.mem_insert.mpr ?_
          exact (Hit.mem_insert.mp (List.mem_of_mem_take kept)).imp_right
            (opened hit)
  intro hit kept _
  exact Or.inl (all seeds Sweep.empty (by simp [Sweep.empty]) hit kept)

/-- In the end all kept hits are closed: the search has come to a local
optimum. -/
theorem Sound.closed_of_stopped (sound : sweep.Sound terrain inside width)
    (comparable : terrain.Comparable inside)
    (covered : sweep.Covered terrain fun _ => False)
    (stopped : sweep.stopped width = true) {hit : Hit}
    (kept : hit ∈ sweep.kept) : sweep.Closed terrain hit.id := by
  refine (covered hit kept not_false).resolve_left fun opened => ?_
  unfold Sweep.stopped at stopped
  split at stopped
  · next none =>
      rw [none] at opened
      cases opened
  · next next rest open_ =>
      have first : next.le hit = true := by
        have ordered := sound.frontier_ordered
        rw [open_] at ordered opened
        exact Hit.head_le ordered opened
      have nextSeen := sound.frontier_seen next (open_ ▸ List.mem_cons_self)
      have widthPos : 0 < width := by
        have := List.length_pos_of_mem kept
        have := sound.kept_length
        omega
      obtain ⟨_, nearer⟩ :=
        (sound.isSettled_iff comparable widthPos nextSeen).mp stopped
      exact (nearer hit kept).not_ge (Hit.rank_le first)

end Sweep

end SmallWorld
