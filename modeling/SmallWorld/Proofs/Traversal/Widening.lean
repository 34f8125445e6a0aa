import SmallWorld.Proofs.Traversal.Ties

/-!
# Wider sweeps

Where no two points are equally distant, a sweep keeps the nearest points
seen (`Sound.kept_eq_take`).  Then two sweeps of different widths from the
same start take the same steps until the narrower one stops (`Follows`): a
hit that only the wider one opens is farther than all hits that the narrower
one keeps, so it is not closed before.  After that the wider one only comes
further (`Follows.before_advance`).
-/

namespace SmallWorld

/-- Whether no two points inside are equally distant. -/
def Terrain.Separated (terrain : Terrain) (inside : PointId → Prop) : Prop :=
  ∀ first second, inside first → inside second →
    terrain.distance first = terrain.distance second → first = second

namespace Sweep

variable {terrain : Terrain} {inside : PointId → Prop}
  {width narrowWidth wideWidth : Nat} {sweep narrow wide : Sweep}
  {id : PointId} {hit other : Hit}

namespace Sound

theorem eq_of_rank_eq (sound : sweep.Sound terrain inside width)
    (separated : terrain.Separated inside)
    (seen : hit ∈ terrain.hits sweep.seen)
    (otherSeen : other ∈ terrain.hits sweep.seen)
    (equal : hit.distance.rank = other.distance.rank) : hit = other := by
  obtain ⟨member, marked⟩ := Terrain.mem_hits.mp seen
  obtain ⟨otherMember, otherMarked⟩ := Terrain.mem_hits.mp otherSeen
  rw [marked, otherMarked] at equal
  have same := separated _ _ (sound.seen_inside _ member)
    (sound.seen_inside _ otherMember) (Scalar.rank_injective equal)
  rw [marked, otherMarked, same]

theorem rank_lt (sound : sweep.Sound terrain inside width)
    (separated : terrain.Separated inside)
    (seen : hit ∈ terrain.hits sweep.seen) (dropped : hit ∉ sweep.kept)
    (kept : other ∈ sweep.kept) :
    other.distance.rank < hit.distance.rank := by
  obtain ⟨member, marked⟩ := Terrain.mem_hits.mp seen
  have order := sound.rank_le hit.id member (marked ▸ dropped) other kept
  refine lt_of_le_of_ne (order.trans_eq (congrArg _
    (congrArg Hit.distance marked.symm))) fun equal => ?_
  rw [sound.eq_of_rank_eq separated (sound.kept_seen other kept) seen
    equal] at kept
  exact dropped kept

theorem kept_eq_take (sound : sweep.Sound terrain inside width)
    (separated : terrain.Separated inside) :
    sweep.kept = (Hit.sort (terrain.hits sweep.seen)).take width := by
  refine sound.kept_eq_take_iff.mpr fun other seen dropped last isLast
    tied => ?_
  have farther := sound.rank_lt separated seen dropped
    (List.mem_of_getLast? isLast)
  rw [tied] at farther
  exact absurd farther (lt_irrefl _)

theorem take_kept_eq (sound : sweep.Sound terrain inside width)
    (separated : terrain.Separated inside) {count : Nat}
    (few : count ≤ width) :
    sweep.kept.take count =
      (Hit.sort (terrain.hits sweep.seen)).take count := by
  rw [sound.kept_eq_take separated, List.take_take, Nat.min_eq_left few]

end Sound

/-- Two sweeps of different widths that have taken the same steps.  What only
the wider one has opened is not kept by the narrower one. -/
structure Paired (terrain : Terrain) (inside : PointId → Prop)
    (narrowWidth wideWidth : Nat) (narrow wide : Sweep) : Prop where
  narrowSound : narrow.Sound terrain inside narrowWidth
  wideSound : wide.Sound terrain inside wideWidth
  seen_eq : wide.seen = narrow.seen
  measured_eq : wide.measured = narrow.measured
  expanded_eq : wide.expanded = narrow.expanded
  frontier_subset : narrow.frontier ⊆ wide.frontier
  dropped : ∀ hit ∈ wide.frontier, hit ∉ narrow.frontier →
    hit ∉ narrow.kept

namespace Paired

theorem before
    (paired : Paired terrain inside narrowWidth wideWidth narrow wide) :
    narrow.Before wide where
  seen_suffix := paired.seen_eq ▸ List.suffix_refl _
  measured_le := paired.measured_eq.ge
  expanded_le := paired.expanded_eq.ge

theorem ofSeed (marked : terrain.Marks hit) (isInside : inside hit.id) :
    Paired terrain inside narrowWidth wideWidth
      (ofSeeds narrowWidth [hit]) (ofSeeds wideWidth [hit]) where
  narrowSound := Sound.ofSeeds
    (fun _ member => List.mem_singleton.mp member ▸ marked)
    (fun _ member => List.mem_singleton.mp member ▸ isInside)
  wideSound := Sound.ofSeeds
    (fun _ member => List.mem_singleton.mp member ▸ marked)
    (fun _ member => List.mem_singleton.mp member ▸ isInside)
  seen_eq := rfl
  measured_eq := rfl
  expanded_eq := rfl
  frontier_subset := List.Subset.refl _
  dropped := fun _ opened unopened => absurd opened unopened

variable (separated : terrain.Separated inside)
  (comparable : terrain.Comparable inside)
  (closed : ∀ {id neighbor}, inside id → neighbor ∈ terrain.adjacent id →
    inside neighbor)
  (narrowPos : 0 < narrowWidth) (widthLe : narrowWidth ≤ wideWidth)

include separated widthLe

theorem kept_subset
    (paired : Paired terrain inside narrowWidth wideWidth narrow wide) :
    narrow.kept ⊆ wide.kept := by
  rw [paired.narrowSound.kept_eq_take separated,
    paired.wideSound.kept_eq_take separated, paired.seen_eq]
  exact (List.take_prefix_take_left widthLe).subset

include comparable

theorem hasRoom
    (paired : Paired terrain inside narrowWidth wideWidth narrow wide)
    (isInside : inside id)
    (room : narrow.hasRoom narrowWidth (terrain.distance id) = true) :
    wide.hasRoom wideWidth (terrain.distance id) = true := by
  refine (paired.wideSound.hasRoom_iff comparable isInside).mpr ?_
  rcases (paired.narrowSound.hasRoom_iff comparable isInside).mp room with
    few | ⟨worse, kept, farther⟩
  · left
    have narrowLength := paired.narrowSound.kept_length
    have wideLength := paired.wideSound.kept_length
    rw [paired.seen_eq] at wideLength
    omega
  · exact Or.inr ⟨worse, paired.kept_subset separated widthLe kept, farther⟩

theorem meet
    (paired : Paired terrain inside narrowWidth wideWidth narrow wide)
    (isInside : inside id) :
    Paired terrain inside narrowWidth wideWidth
      (narrow.meet terrain narrowWidth id)
      (wide.meet terrain wideWidth id) := by
  have narrowSound := paired.narrowSound.meet comparable isInside
  have wideSound := paired.wideSound.meet comparable isInside
  by_cases known : id ∈ narrow.seen
  · rwa [meet_of_mem known, meet_of_mem (paired.seen_eq ▸ known)]
  · have fresh : id ∉ wide.seen := paired.seen_eq ▸ known
    have seen : id :: wide.seen = id :: narrow.seen :=
      congrArg (id :: ·) paired.seen_eq
    have measured : wide.measured + 1 = narrow.measured + 1 :=
      congrArg (· + 1) paired.measured_eq
    cases room : narrow.hasRoom narrowWidth (terrain.distance id) with
    | true =>
        have wideRoom :=
          paired.hasRoom separated comparable widthLe isInside room
        rw [meet_of_room known room] at narrowSound ⊢
        rw [meet_of_room fresh wideRoom] at wideSound ⊢
        refine ⟨narrowSound, wideSound, seen, measured, paired.expanded_eq,
          fun hit opened => ?_, fun hit opened unopened kept => ?_⟩
        · exact Hit.mem_insert.mpr ((Hit.mem_insert.mp opened).imp_right
            fun old => paired.frontier_subset old)
        · obtain ⟨different, stillUnopened⟩ :=
            not_or.mp (mt Hit.mem_insert.mpr unopened)
          have wasOpened :=
            (Hit.mem_insert.mp opened).resolve_left different
          have wasKept := (Hit.mem_insert.mp
            (List.mem_of_mem_take kept)).resolve_left different
          exact paired.dropped hit wasOpened stillUnopened wasKept
    | false =>
        rw [meet_of_full known room] at narrowSound ⊢
        cases wideRoom : wide.hasRoom wideWidth (terrain.distance id) with
        | true =>
            -- Opened by the wider sweep only, and not kept by the other one.
            rw [meet_of_room fresh wideRoom] at wideSound ⊢
            refine ⟨narrowSound, wideSound, seen, measured,
              paired.expanded_eq, fun hit opened => ?_,
              fun hit opened unopened kept => ?_⟩
            · exact Hit.mem_insert.mpr
                (Or.inr (paired.frontier_subset opened))
            · rcases Hit.mem_insert.mp opened with rfl | old
              · exact known (Terrain.hit_mem_hits.mp
                  (paired.narrowSound.kept_seen _ kept))
              · exact paired.dropped hit old unopened kept
        | false =>
            rw [meet_of_full fresh wideRoom] at wideSound ⊢
            exact ⟨narrowSound, wideSound, seen, measured,
              paired.expanded_eq, paired.frontier_subset, paired.dropped⟩

theorem foldl_meet {ids : List PointId} (idsInside : ∀ id ∈ ids, inside id)
    (paired : Paired terrain inside narrowWidth wideWidth narrow wide) :
    Paired terrain inside narrowWidth wideWidth
      (ids.foldl (Sweep.meet terrain narrowWidth) narrow)
      (ids.foldl (Sweep.meet terrain wideWidth) wide) := by
  induction ids generalizing narrow wide with
  | nil => exact paired
  | cons id rest inductionHypothesis =>
      exact inductionHypothesis
        (fun later member => idsInside later (List.mem_cons_of_mem _ member))
        (paired.meet separated comparable widthLe
          (idsInside id List.mem_cons_self))

omit widthLe
include narrowPos

/-- Where the narrower sweep goes on, the nearest open hits of both agree. -/
theorem frontier_eq_cons
    (paired : Paired terrain inside narrowWidth wideWidth narrow wide)
    {next : Hit} {rest : List Hit} (open_ : narrow.frontier = next :: rest)
    (unsettled : narrow.isSettled narrowWidth next = false) :
    ∃ wideRest, wide.frontier = next :: wideRest := by
  have sound := paired.narrowSound
  have nextOpen : next ∈ narrow.frontier := open_ ▸ List.mem_cons_self
  have nextOpened := paired.frontier_subset nextOpen
  obtain ⟨first, wideRest, wideOpen⟩ :=
    List.exists_cons_of_ne_nil (List.ne_nil_of_mem nextOpened)
  have firstOpened : first ∈ wide.frontier := wideOpen ▸ List.mem_cons_self
  have wideOrdered := paired.wideSound.frontier_ordered
  rw [wideOpen] at wideOrdered nextOpened
  have firstLe := Hit.head_le wideOrdered nextOpened
  refine ⟨wideRest, ?_⟩
  by_cases opened : first ∈ narrow.frontier
  · have ordered := sound.frontier_ordered
    rw [open_] at ordered opened
    have nextLe := Hit.head_le ordered opened
    rw [wideOpen, Hit.le_antisymm firstLe nextLe]
  · -- All kept hits would be nearer than the next one.
    have seen := paired.wideSound.frontier_seen first firstOpened
    rw [paired.seen_eq] at seen
    have dropped := paired.dropped first firstOpened opened
    obtain ⟨member, marked⟩ := Terrain.mem_hits.mp seen
    have full := sound.length_eq_of_notMem member (marked ▸ dropped)
    have settled := (sound.isSettled_iff comparable narrowPos
      (sound.frontier_seen next nextOpen)).mpr
        ⟨full.ge, fun hit kept =>
          (sound.rank_lt separated seen dropped kept).trans_le
            (Hit.rank_le firstLe)⟩
    rw [settled] at unsettled
    cases unsettled

include widthLe

/-- Where the narrower sweep goes on, the wider one does so as well. -/
theorem isSettled_eq_false
    (paired : Paired terrain inside narrowWidth wideWidth narrow wide)
    {next : Hit} (nextSeen : next ∈ terrain.hits narrow.seen)
    (unsettled : narrow.isSettled narrowWidth next = false) :
    wide.isSettled wideWidth next = false := by
  rw [Bool.eq_false_iff] at unsettled ⊢
  refine mt (fun settled => ?_) unsettled
  obtain ⟨wideFull, nearer⟩ := (paired.wideSound.isSettled_iff comparable
    (narrowPos.trans_le widthLe) (paired.seen_eq ▸ nextSeen)).mp settled
  refine (paired.narrowSound.isSettled_iff comparable narrowPos
    nextSeen).mpr ⟨?_, fun hit kept =>
      nearer hit (paired.kept_subset separated widthLe kept)⟩
  have narrowLength := paired.narrowSound.kept_length
  have wideLength := paired.wideSound.kept_length
  rw [paired.seen_eq] at wideLength
  omega

include closed

/-- While the narrower sweep runs, the wider one takes the same step. -/
theorem step
    (paired : Paired terrain inside narrowWidth wideWidth narrow wide)
    (running : narrow.stopped narrowWidth = false) :
    Paired terrain inside narrowWidth wideWidth
      (narrow.step terrain narrowWidth) (wide.step terrain wideWidth) := by
  obtain ⟨next, rest, open_, unsettled, stepped⟩ :=
    step_of_not_stopped terrain running
  have nextOpen : next ∈ narrow.frontier := open_ ▸ List.mem_cons_self
  have nextSeen := paired.narrowSound.frontier_seen next nextOpen
  obtain ⟨wideRest, wideOpen⟩ :=
    paired.frontier_eq_cons separated comparable narrowPos open_ unsettled
  have wideUnsettled := paired.isSettled_eq_false separated comparable
    narrowPos widthLe nextSeen unsettled
  have distinct := paired.narrowSound.frontier_nodup
  have wideDistinct := paired.wideSound.frontier_nodup
  rw [open_] at distinct
  rw [wideOpen] at wideDistinct
  have closing : Paired terrain inside narrowWidth wideWidth
      { narrow with frontier := rest, expanded := narrow.expanded + 1 }
      { wide with frontier := wideRest, expanded := wide.expanded + 1 } := by
    refine ⟨paired.narrowSound.close open_ _,
      paired.wideSound.close wideOpen _, paired.seen_eq, paired.measured_eq,
      congrArg (· + 1) paired.expanded_eq, fun hit opened => ?_,
      fun hit opened unopened => ?_⟩
    · have wasOpened := paired.frontier_subset
        (open_ ▸ List.mem_cons_of_mem next opened)
      rw [wideOpen] at wasOpened
      refine (List.mem_cons.mp wasOpened).resolve_left ?_
      rintro rfl
      exact (List.nodup_cons.mp distinct).1 opened
    · refine paired.dropped hit
        (wideOpen ▸ List.mem_cons_of_mem next opened) fun wasOpened => ?_
      rw [open_] at wasOpened
      rcases List.mem_cons.mp wasOpened with rfl | still
      · exact (List.nodup_cons.mp wideDistinct).1 opened
      · exact unopened still
  rw [stepped, step_of_unsettled wideOpen wideUnsettled]
  exact closing.foldl_meet separated comparable widthLe fun id member =>
    closed (paired.narrowSound.seen_inside _
      (Terrain.mem_hits.mp nextSeen).1) member

/-- The wider sweep comes at least as far as the narrower one. -/
theorem before_advance
    (paired : Paired terrain inside narrowWidth wideWidth narrow wide)
    (count : Nat) :
    (narrow.advance terrain narrowWidth count).Before
      (wide.advance terrain wideWidth count) := by
  induction count generalizing narrow wide with
  | zero => exact paired.before
  | succ count inductionHypothesis =>
      cases running : narrow.stopped narrowWidth with
      | true =>
          rw [advance_of_stopped running]
          exact paired.before.trans (Sweep.before_advance wide (count + 1))
      | false =>
          exact inductionHypothesis (paired.step separated comparable closed
            narrowPos widthLe running)

end Paired

variable {count : Nat}

/-- Who has seen more finds nearer hits. -/
theorem Before.le_getElem? (before : narrow.Before wide)
    (narrowSound : narrow.Sound terrain inside narrowWidth)
    (wideSound : wide.Sound terrain inside wideWidth)
    (separated : terrain.Separated inside) (narrowEnough : count ≤ narrowWidth)
    (wideEnough : count ≤ wideWidth) {position : Nat} {far : Hit}
    (listed : (narrow.kept.take count)[position]? = some far) :
    ∃ near, (wide.kept.take count)[position]? = some near ∧
      near.le far = true := by
  rw [narrowSound.take_kept_eq separated narrowEnough] at listed
  rw [wideSound.take_kept_eq separated wideEnough]
  have sublist := terrain.sort_hits_sublist narrowSound.seen_nodup
    before.seen_suffix.subset
  rw [List.getElem?_take] at listed ⊢
  split at listed
  · next inside =>
      rw [if_pos inside]
      exact Hit.le_getElem?_of_sublist (Hit.ordered_sort _) sublist listed
  · cases listed

/-- Who has seen more finds all true hits that others find. -/
theorem Before.mem_take (before : narrow.Before wide)
    (narrowSound : narrow.Sound terrain inside narrowWidth)
    (wideSound : wide.Sound terrain inside wideWidth)
    (separated : terrain.Separated inside) (narrowEnough : count ≤ narrowWidth)
    (wideEnough : count ≤ wideWidth) {all : List PointId} (distinct : all.Nodup)
    (whole : wide.seen ⊆ all) (found : hit ∈ narrow.kept.take count)
    (nearest : hit ∈ (Hit.sort (terrain.hits all)).take count) :
    hit ∈ wide.kept.take count := by
  rw [narrowSound.take_kept_eq separated narrowEnough] at found
  rw [wideSound.take_kept_eq separated wideEnough]
  have narrowSublist := terrain.sort_hits_sublist narrowSound.seen_nodup
    before.seen_suffix.subset
  have sublist := terrain.sort_hits_sublist wideSound.seen_nodup whole
  refine Hit.mem_take_of_sublist sublist ?_
    (narrowSublist.subset (List.mem_of_mem_take found)) nearest
  exact (Hit.sort_perm _).nodup_iff.mpr
    (distinct.map terrain.hit_injective)

end Sweep

end SmallWorld
