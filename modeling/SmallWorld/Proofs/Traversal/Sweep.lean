import SmallWorld.Proofs.Hit
import SmallWorld.Proofs.Traversal.Terrain
import SmallWorld.Traversal.Beam

/-!
# Sweeps

A sweep is the course of a beam search over a terrain: the same state with
the points seen as a list, latest first, and steps that are plain functions.
A sweep that has stopped stays as it is, so a number of steps that is large
enough gives the outcome.  `Layer.search_eq` says that it is the outcome of
the search.
-/

namespace SmallWorld

structure Sweep where
  frontier : List Hit
  kept : List Hit
  /-- The points met so far, latest first. -/
  seen : List PointId
  measured : Nat
  expanded : Nat

namespace Sweep

def empty : Sweep where
  frontier := []
  kept := []
  seen := []
  measured := 0
  expanded := 0

def keep (width : Nat) (hit : Hit) (sweep : Sweep) : Sweep :=
  { sweep with
    frontier := hit.insert sweep.frontier
    kept := (hit.insert sweep.kept).take width }

def seed (width : Nat) (sweep : Sweep) (hit : Hit) : Sweep :=
  if hit.id ∈ sweep.seen then
    sweep
  else
    { sweep with seen := hit.id :: sweep.seen }.keep width hit

def ofSeeds (width : Nat) (seeds : List Hit) : Sweep :=
  seeds.foldl (seed width) empty

def note (sweep : Sweep) (id : PointId) : Sweep :=
  { sweep with seen := id :: sweep.seen, measured := sweep.measured + 1 }

def hasRoom (width : Nat) (sweep : Sweep) (distance : Scalar) : Bool :=
  if sweep.kept.length < width then
    true
  else
    match sweep.kept.getLast? with
    | some worst => distance < worst.distance
    | none => false

def isSettled (width : Nat) (sweep : Sweep) (next : Hit) : Bool :=
  if sweep.kept.length < width then
    false
  else
    match sweep.kept.getLast? with
    | some worst => worst.distance < next.distance
    | none => Scalar.infinity < next.distance

def meet (terrain : Terrain) (width : Nat) (sweep : Sweep) (id : PointId) :
    Sweep :=
  if id ∈ sweep.seen then
    sweep
  else if sweep.hasRoom width (terrain.distance id) then
    (sweep.note id).keep width (terrain.hit id)
  else
    sweep.note id

def expand (terrain : Terrain) (width : Nat) (sweep : Sweep) (next : Hit)
    (rest : List Hit) : Sweep :=
  (terrain.adjacent next.id).foldl (meet terrain width)
    { sweep with frontier := rest, expanded := sweep.expanded + 1 }

def stopped (width : Nat) (sweep : Sweep) : Bool :=
  match sweep.frontier with
  | [] => true
  | next :: _ => sweep.isSettled width next

def step (terrain : Terrain) (width : Nat) (sweep : Sweep) : Sweep :=
  match sweep.frontier with
  | [] => sweep
  | next :: rest =>
      if sweep.isSettled width next then
        sweep
      else
        sweep.expand terrain width next rest

def advance (terrain : Terrain) (width : Nat) : Nat → Sweep → Sweep
  | 0, sweep => sweep
  | count + 1, sweep => advance terrain width count (step terrain width sweep)

variable {terrain : Terrain} {width : Nat} {sweep : Sweep}

theorem meet_of_mem {id : PointId} (known : id ∈ sweep.seen) :
    sweep.meet terrain width id = sweep := by
  unfold meet
  rw [if_pos known]

theorem meet_of_room {id : PointId} (fresh : id ∉ sweep.seen)
    (room : sweep.hasRoom width (terrain.distance id) = true) :
    sweep.meet terrain width id =
      (sweep.note id).keep width (terrain.hit id) := by
  unfold meet
  rw [if_neg fresh, if_pos room]

theorem meet_of_full {id : PointId} (fresh : id ∉ sweep.seen)
    (full : sweep.hasRoom width (terrain.distance id) = false) :
    sweep.meet terrain width id = sweep.note id := by
  unfold meet
  rw [if_neg fresh, if_neg (Bool.eq_false_iff.mp full)]

theorem step_of_stopped (stopped : sweep.stopped width = true) :
    sweep.step terrain width = sweep := by
  unfold Sweep.stopped at stopped
  unfold step
  split
  · rfl
  · next next_ rest open_ =>
      rw [open_] at stopped
      rw [if_pos stopped]

theorem advance_of_stopped (stopped : sweep.stopped width = true)
    (count : Nat) : sweep.advance terrain width count = sweep := by
  induction count with
  | zero => rfl
  | succ count inductionHypothesis =>
      unfold advance
      rw [step_of_stopped stopped, inductionHypothesis]

theorem advance_add (first second : Nat) (sweep : Sweep) :
    sweep.advance terrain width (first + second) =
      (sweep.advance terrain width first).advance terrain width second := by
  induction first generalizing sweep with
  | zero => rw [Nat.zero_add, advance]
  | succ first inductionHypothesis =>
      rw [Nat.add_right_comm, advance, inductionHypothesis, advance]

theorem step_of_unsettled {next : Hit} {rest : List Hit}
    (open_ : sweep.frontier = next :: rest)
    (unsettled : sweep.isSettled width next = false) :
    sweep.step terrain width = sweep.expand terrain width next rest := by
  unfold step
  rw [open_]
  exact if_neg (Bool.eq_false_iff.mp unsettled)

/-- A step leaves the rest of the frontier to be met. -/
theorem step_of_not_stopped (terrain : Terrain)
    (running : sweep.stopped width = false) :
    ∃ next rest, sweep.frontier = next :: rest ∧
      sweep.isSettled width next = false ∧
      sweep.step terrain width = sweep.expand terrain width next rest := by
  unfold stopped at running
  split at running
  · cases running
  · next next_ rest open_ =>
      exact ⟨next_, rest, open_, running, step_of_unsettled open_ running⟩

/-- What each step preserves holds in the end. -/
theorem advance_induction {motive : Sweep → Prop}
    (preserved : ∀ {sweep : Sweep}, motive sweep →
      sweep.stopped width = false → motive (sweep.step terrain width))
    (count : Nat) (start : motive sweep) :
    motive (sweep.advance terrain width count) := by
  induction count generalizing sweep with
  | zero => exact start
  | succ count inductionHypothesis =>
      refine inductionHypothesis ?_
      cases running : sweep.stopped width with
      | true => rwa [step_of_stopped running]
      | false => exact preserved start running

/-- What meeting a neighbour preserves holds after all have been met. -/
theorem foldl_meet_induction {motive : Sweep → Prop} {ids : List PointId}
    (meeting : ∀ {sweep : Sweep} {id}, id ∈ ids → motive sweep →
      motive (sweep.meet terrain width id))
    (start : motive sweep) :
    motive (ids.foldl (meet terrain width) sweep) := by
  induction ids generalizing sweep with
  | nil => exact start
  | cons id rest inductionHypothesis =>
      exact inductionHypothesis
        (fun member => meeting (List.mem_cons_of_mem _ member))
        (meeting List.mem_cons_self start)

/-- What meeting a neighbour preserves holds after a step, if closing a hit
preserves it. -/
theorem expand_induction {motive : Sweep → Prop} {next : Hit}
    {rest : List Hit}
    (closing : motive
      { sweep with frontier := rest, expanded := sweep.expanded + 1 })
    (meeting : ∀ {sweep : Sweep} {id}, id ∈ terrain.adjacent next.id →
      motive sweep → motive (sweep.meet terrain width id)) :
    motive (sweep.expand terrain width next rest) :=
  foldl_meet_induction meeting closing

/-- A sweep that has come further: points seen stay seen, and the work only
grows. -/
structure Before (earlier later : Sweep) : Prop where
  seen_suffix : earlier.seen <:+ later.seen
  measured_le : earlier.measured ≤ later.measured
  expanded_le : earlier.expanded ≤ later.expanded

theorem Before.refl (sweep : Sweep) : sweep.Before sweep where
  seen_suffix := List.suffix_refl _
  measured_le := Nat.le_refl _
  expanded_le := Nat.le_refl _

theorem Before.trans {first second third : Sweep}
    (earlier : first.Before second) (later : second.Before third) :
    first.Before third where
  seen_suffix := earlier.seen_suffix.trans later.seen_suffix
  measured_le := earlier.measured_le.trans later.measured_le
  expanded_le := earlier.expanded_le.trans later.expanded_le

theorem before_meet (sweep : Sweep) (id : PointId) :
    sweep.Before (sweep.meet terrain width id) := by
  unfold meet
  split
  · exact Before.refl sweep
  · split
    · exact ⟨List.suffix_cons _ _, Nat.le_succ _, Nat.le_refl _⟩
    · exact ⟨List.suffix_cons _ _, Nat.le_succ _, Nat.le_refl _⟩

theorem before_foldl_meet (sweep : Sweep) (ids : List PointId) :
    sweep.Before (ids.foldl (meet terrain width) sweep) := by
  induction ids generalizing sweep with
  | nil => exact Before.refl sweep
  | cons id rest inductionHypothesis =>
      exact (before_meet sweep id).trans (inductionHypothesis _)

theorem before_advance (sweep : Sweep) (count : Nat) :
    sweep.Before (sweep.advance terrain width count) := by
  refine advance_induction (motive := sweep.Before) ?_ count
    (Before.refl sweep)
  intro later earlier running
  obtain ⟨next, rest, _, _, stepped⟩ :=
    step_of_not_stopped terrain running
  have closed : later.Before
      { later with frontier := rest, expanded := later.expanded + 1 } :=
    ⟨List.suffix_refl _, Nat.le_refl _, Nat.le_succ _⟩
  rw [stepped]
  exact (earlier.trans closed).trans (before_foldl_meet _ _)

end Sweep

/-- The course of a search from the given seeds, long enough to come to its
end. -/
def Terrain.sweep (terrain : Terrain) (size width : Nat) (seeds : List Hit) :
    Sweep :=
  (Sweep.ofSeeds width seeds).advance terrain width (size + seeds.length)

/-- More steps than are needed do not change the outcome. -/
theorem Terrain.sweep_of_le {terrain : Terrain} {size longer width : Nat}
    {seeds : List Hit}
    (stopped : (terrain.sweep size width seeds).stopped width = true)
    (enough : size ≤ longer) :
    terrain.sweep longer width seeds = terrain.sweep size width seeds := by
  obtain ⟨further, rfl⟩ := Nat.exists_eq_add_of_le enough
  rw [sweep, Nat.add_right_comm, Sweep.advance_add]
  exact Sweep.advance_of_stopped stopped further

structure Beam.Tracks (beam : Beam) (sweep : Sweep) : Prop where
  frontier_eq : beam.frontier = sweep.frontier
  kept_eq : beam.kept = sweep.kept
  contains_eq : ∀ id, beam.seen.contains id = decide (id ∈ sweep.seen)
  size_eq : beam.seen.size = sweep.seen.length
  measured_eq : beam.measured = sweep.measured
  expanded_eq : beam.expanded = sweep.expanded

namespace Beam.Tracks

variable {beam : Beam} {sweep : Sweep} {width : Nat}

theorem hasRoom_eq (tracks : beam.Tracks sweep) (distance : Scalar) :
    beam.hasRoom width distance = sweep.hasRoom width distance :=
  congrArg (fun kept => Sweep.hasRoom width { sweep with kept } distance)
    tracks.kept_eq

theorem isSettled_eq (tracks : beam.Tracks sweep) (next : Hit) :
    beam.isSettled width next = sweep.isSettled width next :=
  congrArg (fun kept => Sweep.isSettled width { sweep with kept } next)
    tracks.kept_eq

theorem keep (tracks : beam.Tracks sweep) (hit : Hit) :
    (beam.keep width hit).Tracks (sweep.keep width hit) where
  frontier_eq := congrArg (Hit.insert hit) tracks.frontier_eq
  kept_eq := congrArg (fun kept => (hit.insert kept).take width)
    tracks.kept_eq
  contains_eq := tracks.contains_eq
  size_eq := tracks.size_eq
  measured_eq := tracks.measured_eq
  expanded_eq := tracks.expanded_eq

/-- A point that has not been met is added to those seen. -/
theorem see (tracks : beam.Tracks sweep) {id : PointId}
    (fresh : id ∉ sweep.seen) :
    { beam with seen := beam.seen.insert id }.Tracks
      { sweep with seen := id :: sweep.seen } := by
  have absent : beam.seen.contains id = false := by
    rw [tracks.contains_eq]
    exact decide_eq_false fresh
  refine { tracks with contains_eq := fun other => ?_, size_eq := ?_ }
  · rw [Std.HashSet.contains_insert, tracks.contains_eq]
    by_cases same : id = other
    · simp [same]
    · simp [same, Ne.symm same]
  · rw [Std.HashSet.size_insert, if_neg, tracks.size_eq, List.length_cons]
    rw [← Std.HashSet.contains_iff_mem, absent]
    exact Bool.false_ne_true

theorem note (tracks : beam.Tracks sweep) {id : PointId}
    (fresh : id ∉ sweep.seen) : (beam.note id).Tracks (sweep.note id) :=
  { tracks.see fresh with
    measured_eq := congrArg (· + 1) tracks.measured_eq }

theorem seed (tracks : beam.Tracks sweep) (hit : Hit) :
    (beam.seed width hit).Tracks (sweep.seed width hit) := by
  unfold Beam.seed Sweep.seed
  rw [tracks.contains_eq]
  by_cases known : hit.id ∈ sweep.seen
  · rw [if_pos (decide_eq_true known), if_pos known]
    exact tracks
  · rw [if_neg (by simpa using known), if_neg known]
    exact (tracks.see known).keep hit

theorem ofSeeds (width : Nat) (seeds : List Hit) :
    (Beam.ofSeeds width seeds).Tracks (Sweep.ofSeeds width seeds) := by
  have start : Beam.empty.Tracks Sweep.empty := by
    refine ⟨rfl, rfl, fun id => ?_, Std.HashSet.size_empty, rfl, rfl⟩
    rw [show Beam.empty.seen = ∅ from rfl, Std.HashSet.contains_empty]
    exact (decide_eq_false List.not_mem_nil).symm
  unfold Beam.ofSeeds Sweep.ofSeeds
  generalize Beam.empty = beam at start
  generalize Sweep.empty = sweep at start
  induction seeds generalizing beam sweep with
  | nil => exact start
  | cons hit rest inductionHypothesis =>
      exact inductionHypothesis _ _ (start.seed hit)

end Beam.Tracks

namespace Layer

variable {layer : Layer} {inside : PointId → Prop} {terrain : Terrain}
  {width : Nat} {beam : Beam} {sweep : Sweep}

theorem meet_eq (width : Nat) (presents : layer.Presents inside terrain)
    (tracks : beam.Tracks sweep) {id : PointId} (idInside : inside id) :
    ∃ result, layer.meet width beam id = .ok result ∧
      result.Tracks (sweep.meet terrain width id) := by
  unfold Layer.meet Sweep.meet
  rw [tracks.contains_eq, presents.distance_eq idInside]
  by_cases known : id ∈ sweep.seen
  · rw [if_pos (decide_eq_true known), if_pos known]
    exact ⟨beam, rfl, tracks⟩
  · rw [if_neg (by simpa using known), if_neg known]
    dsimp only
    rw [tracks.hasRoom_eq]
    split
    · exact ⟨_, rfl, (tracks.note known).keep _⟩
    · exact ⟨_, rfl, tracks.note known⟩

theorem meetAll_eq (presents : layer.Presents inside terrain)
    {ids : List PointId} (idsInside : ∀ id ∈ ids, inside id)
    {beam : Beam} {sweep : Sweep} (tracks : beam.Tracks sweep) :
    ∃ result, layer.meetAll width beam ids = .ok result ∧
      result.Tracks (ids.foldl (Sweep.meet terrain width) sweep) := by
  induction ids generalizing beam sweep with
  | nil => exact ⟨beam, rfl, tracks⟩
  | cons id rest inductionHypothesis =>
      obtain ⟨next, met, tracks'⟩ :=
        meet_eq width presents tracks
          (idsInside id List.mem_cons_self)
      obtain ⟨result, later, tracks''⟩ := inductionHypothesis
        (fun other member => idsInside other (List.mem_cons_of_mem _ member))
        tracks'
      refine ⟨result, ?_, tracks''⟩
      unfold meetAll
      rw [met]
      exact later

theorem expand_eq (width : Nat) (presents : layer.Presents inside terrain)
    (tracks : beam.Tracks sweep) {next : Hit} (nextInside : inside next.id)
    (rest : List Hit) :
    ∃ result, layer.expand width beam next rest = .ok result ∧
      result.Tracks (sweep.expand terrain width next rest) := by
  unfold expand
  rw [presents.neighbors_eq nextInside]
  refine meetAll_eq presents
    (fun id member => presents.closed nextInside member) ?_
  exact { tracks with
    frontier_eq := rfl
    expanded_eq := congrArg (· + 1) tracks.expanded_eq }

theorem frontier_inside_expand (presents : layer.Presents inside terrain)
    {next : Hit} {rest : List Hit} (nextInside : inside next.id)
    (restInside : ∀ hit ∈ rest, inside hit.id) :
    ∀ hit ∈ (sweep.expand terrain width next rest).frontier,
      inside hit.id := by
  refine Sweep.expand_induction
    (motive := fun sweep => ∀ hit ∈ sweep.frontier, inside hit.id)
    restInside ?_
  intro sweep id member earlier
  unfold Sweep.meet
  split
  · exact earlier
  · split
    · intro hit opened
      rcases Hit.mem_insert.mp opened with rfl | old
      · exact presents.closed nextInside member
      · exact earlier hit old
    · exact earlier

theorem explore_of_closed (closed : beam.frontier = []) :
    layer.explore width beam = .ok beam := by
  rw [explore]
  split
  · rfl
  · next open_ =>
      rw [closed] at open_
      cases open_

theorem explore_of_settled {next : Hit} {rest : List Hit}
    (open_ : beam.frontier = next :: rest)
    (settled : beam.isSettled width next = true) :
    layer.explore width beam = .ok beam := by
  rw [explore]
  split
  · rfl
  · next open' =>
      cases open_.symm.trans open'
      rw [if_pos settled]

theorem explore_of_expand {next : Hit} {rest : List Hit} {result : Beam}
    (open_ : beam.frontier = next :: rest)
    (unsettled : beam.isSettled width next = false)
    (expanded : layer.expand width beam next rest = .ok result) :
    layer.explore width beam = layer.explore width result := by
  rw [explore]
  split
  · next closed =>
      rw [closed] at open_
      cases open_
  · next open' =>
      cases open_.symm.trans open'
      rw [if_neg (Bool.eq_false_iff.mp unsettled)]
      split
      · next failed => cases expanded.symm.trans failed
      · next ended =>
          cases expanded.symm.trans ended
          rfl

theorem explore_of_fault {next : Hit} {rest : List Hit} {fault : Fault}
    (open_ : beam.frontier = next :: rest)
    (unsettled : beam.isSettled width next = false)
    (failed : layer.expand width beam next rest = .error fault) :
    layer.explore width beam = .error fault := by
  rw [explore]
  split
  · next closed =>
      rw [closed] at open_
      cases open_
  · next open' =>
      cases open_.symm.trans open'
      rw [if_neg (Bool.eq_false_iff.mp unsettled)]
      split
      · next failed' => exact failed'.symm.trans failed
      · next ended => cases failed.symm.trans ended

theorem explore_eq (presents : layer.Presents inside terrain) {fuel : Nat}
    {beam : Beam} {sweep : Sweep} (tracks : beam.Tracks sweep)
    (frontierInside : ∀ hit ∈ sweep.frontier, inside hit.id)
    (enough : beam.pending layer.size ≤ fuel) :
    ∃ result, layer.explore width beam = .ok result ∧
      result.Tracks (sweep.advance terrain width fuel) ∧
      (sweep.advance terrain width fuel).stopped width = true := by
  induction fuel generalizing beam sweep with
  | zero =>
      have closed : beam.frontier = [] := by
        unfold Beam.pending at enough
        exact List.eq_nil_of_length_eq_zero (by omega)
      refine ⟨beam, explore_of_closed closed, tracks, ?_⟩
      unfold Sweep.advance Sweep.stopped
      rw [← tracks.frontier_eq, closed]
  | succ fuel inductionHypothesis =>
      cases running : sweep.stopped width with
      | true =>
          rw [Sweep.advance_of_stopped running]
          refine ⟨beam, ?_, tracks, running⟩
          unfold Sweep.stopped at running
          split at running
          · next closed =>
              exact explore_of_closed (tracks.frontier_eq.trans closed)
          · next open_ =>
              refine explore_of_settled (tracks.frontier_eq.trans open_) ?_
              rw [tracks.isSettled_eq]
              exact running
      | false =>
          obtain ⟨next, rest, open_, unsettled, stepped⟩ :=
            Sweep.step_of_not_stopped terrain running
          rw [open_] at frontierInside
          have nextInside := frontierInside next List.mem_cons_self
          have restInside : ∀ hit ∈ rest, inside hit.id :=
            fun hit member => frontierInside hit
              (List.mem_cons_of_mem _ member)
          have beamOpen := tracks.frontier_eq.trans open_
          obtain ⟨result, expanded, tracks'⟩ :=
            expand_eq width presents tracks nextInside rest
          have fewer := pending_expand_lt beamOpen expanded
          obtain ⟨final, explored, finalTracks, finalStopped⟩ :=
            inductionHypothesis tracks'
              (frontier_inside_expand presents nextInside restInside)
              (by omega)
          rw [explore_of_expand beamOpen
            (by rw [tracks.isSettled_eq, unsettled]) expanded]
          unfold Sweep.advance
          rw [stepped]
          exact ⟨final, explored, finalTracks, finalStopped⟩

/-- Each seed opens one hit at most. -/
theorem ofSeeds_frontier (width : Nat) (seeds : List Hit) :
    (Sweep.ofSeeds width seeds).frontier.length ≤ seeds.length ∧
      ∀ hit ∈ (Sweep.ofSeeds width seeds).frontier, hit ∈ seeds := by
  have all : ∀ (seeds : List Hit) (sweep : Sweep),
      (seeds.foldl (Sweep.seed width) sweep).frontier.length ≤
          sweep.frontier.length + seeds.length ∧
        ∀ hit ∈ (seeds.foldl (Sweep.seed width) sweep).frontier,
          hit ∈ sweep.frontier ∨ hit ∈ seeds := by
    intro seeds
    induction seeds with
    | nil => exact fun sweep => ⟨Nat.le_refl _, fun _ => Or.inl⟩
    | cons seed rest inductionHypothesis =>
        intro sweep
        obtain ⟨short, listed⟩ := inductionHypothesis (sweep.seed width seed)
        have opened : (sweep.seed width seed).frontier.length ≤
              sweep.frontier.length + 1 ∧
            ∀ hit ∈ (sweep.seed width seed).frontier,
              hit = seed ∨ hit ∈ sweep.frontier := by
          unfold Sweep.seed
          split
          · exact ⟨Nat.le_succ _, fun _ => Or.inr⟩
          · exact ⟨Nat.le_of_eq (Hit.length_insert _ _),
              fun _ => Hit.mem_insert.mp⟩
        rw [List.length_cons]
        refine ⟨by rw [List.foldl_cons]; omega, fun hit member => ?_⟩
        rcases listed hit member with earlier | later
        · rcases opened.2 hit earlier with rfl | old
          · exact Or.inr List.mem_cons_self
          · exact Or.inl old
        · exact Or.inr (List.mem_cons_of_mem _ later)
  obtain ⟨short, listed⟩ := all seeds Sweep.empty
  refine ⟨short.trans (Nat.le_of_eq (Nat.zero_add _)), fun hit member => ?_⟩
  exact (listed hit member).resolve_left List.not_mem_nil

theorem search_eq (presents : layer.Presents inside terrain)
    (seeds : List Hit) (seedsInside : ∀ hit ∈ seeds, inside hit.id)
    (width : Nat) :
    ∃ beam, layer.search seeds width = .ok beam ∧
      beam.Tracks (terrain.sweep layer.size width seeds) ∧
      (terrain.sweep layer.size width seeds).stopped width = true := by
  have tracks := Beam.Tracks.ofSeeds width seeds
  obtain ⟨short, listed⟩ := ofSeeds_frontier width seeds
  refine explore_eq presents tracks
    (fun hit member => seedsInside hit (listed hit member)) ?_
  have unseen : unseenCount layer.size (Beam.ofSeeds width seeds).seen ≤
      layer.size := by
    unfold unseenCount
    exact List.countP_le_length.trans (Nat.le_of_eq List.length_range)
  unfold Beam.pending
  rw [tracks.frontier_eq]
  omega

end Layer

end SmallWorld
