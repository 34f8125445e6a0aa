import SmallWorld.Proofs.Traversal.Outcome
import SmallWorld.Proofs.Traversal.Trail

/-!
# The work of a search

A search expands no point twice and measures no point twice, since it measures
only points that it has not seen and opens a hit only when it measures its
point or starts from it (`Counts`, `Opens`).  So what a search counts are
numbers of different points.  If it returns fewer hits than it may, it has
expanded all points that it has seen, and these are all that can be reached
(`Accounts`).
-/

namespace SmallWorld

namespace Layer

variable {layer : Layer} {width : Nat} {beam result : Beam}
  {trail trail' : Trail} {id : PointId}

theorem meetNoted_cases
    (met : layer.meetNoted width beam trail id = .ok (result, trail')) :
    (id ∈ beam.seen ∧ result = beam ∧ trail' = trail) ∨
      id ∉ beam.seen ∧ trail' = trail.measure id ∧ ∃ distance,
        (result = (beam.note id).keep width { distance, id } ∨
          beam.hasRoom width distance = false ∧ result = beam.note id) := by
  unfold meetNoted at met
  split at met
  · next known =>
      cases met
      exact Or.inl ⟨Std.HashSet.contains_iff_mem.mp known, rfl, rfl⟩
  · next fresh =>
      refine Or.inr ⟨mt Std.HashSet.contains_iff_mem.mpr fresh, ?_⟩
      cases measured : layer.distance id with
      | error fault =>
          rw [measured] at met
          cases met
      | ok distance =>
          rw [measured] at met
          dsimp only at met
          split at met
          · cases met
            exact ⟨rfl, distance, Or.inl rfl⟩
          · next noRoom =>
              cases met
              exact ⟨rfl, distance,
                Or.inr ⟨Bool.eq_false_iff.mpr noRoom, rfl⟩⟩

theorem neighbors_of_expandNoted {next : Hit} {rest : List Hit}
    (expanded : layer.expandNoted width beam trail next rest =
      .ok (result, trail')) :
    ∃ neighbors, layer.neighbors next.id = .ok neighbors ∧
      layer.meetAllNoted width
        { beam with frontier := rest, expanded := beam.expanded + 1 }
        (trail.expand next.id) neighbors = .ok (result, trail') := by
  unfold expandNoted at expanded
  split at expanded
  · cases expanded
  · next neighbors listed => exact ⟨neighbors, listed, expanded⟩

/-- What meeting a neighbour preserves holds after all have been met. -/
theorem meetAllNoted_induction {motive : Beam → Trail → Prop}
    {ids : List PointId}
    (meeting : ∀ {beam result : Beam} {trail trail' : Trail} {id},
      id ∈ ids → layer.meetNoted width beam trail id = .ok (result, trail') →
        motive beam trail → motive result trail')
    (met : layer.meetAllNoted width beam trail ids = .ok (result, trail'))
    (start : motive beam trail) : motive result trail' := by
  induction ids generalizing beam trail with
  | nil =>
      cases met
      exact start
  | cons id rest inductionHypothesis =>
      unfold meetAllNoted at met
      split at met
      · cases met
      · next first =>
          exact inductionHypothesis
            (fun member => meeting (List.mem_cons_of_mem _ member)) met
            (meeting List.mem_cons_self first start)

/-- What closing a hit preserves holds in the end, when no hit is open or the
beam is settled. -/
theorem exploreNoted_induction {motive : Beam → Trail → Prop}
    (closing : ∀ {beam result : Beam} {trail trail' : Trail} {next rest},
      beam.frontier = next :: rest →
        layer.expandNoted width beam trail next rest = .ok (result, trail') →
          motive beam trail → motive result trail')
    (explored : layer.exploreNoted width beam trail = .ok (result, trail'))
    (start : motive beam trail) :
    motive result trail' ∧ ∀ next rest, result.frontier = next :: rest →
      result.isSettled width next = true := by
  fun_induction exploreNoted layer width beam trail
  case case1 closed =>
    cases explored
    refine ⟨start, fun next rest open_ => ?_⟩
    cases closed.symm.trans open_
  case case2 first rest open_ settled =>
    cases explored
    refine ⟨start, fun next rest' open' => ?_⟩
    cases open_.symm.trans open'
    exact settled
  case case3 => cases explored
  case case4 open_ _ _ _ noted inductionHypothesis =>
    exact inductionHypothesis explored (closing open_ noted start)

end Layer

namespace Beam

/-- The seen points are the starts and the measured points, all different, and
the counters are those of the notes. -/
structure Counts (starts : List PointId) (beam : Beam) (trail : Trail) :
    Prop where
  nodup : (starts ++ trail.measured).Nodup
  mem_seen_iff : ∀ id, id ∈ beam.seen ↔ id ∈ starts ++ trail.measured
  size_eq : beam.seen.size = (starts ++ trail.measured).length
  measured_eq : beam.measured = trail.measured.length
  expanded_eq : beam.expanded = trail.expanded.length

/-- The points of the open hits and those expanded are all different and have
been seen.  As long as there is room for all points seen, they are all of
these. -/
structure Opens (width : Nat) (beam : Beam) (expanded : List PointId) :
    Prop where
  nodup : (beam.frontier.map Hit.id ++ expanded).Nodup
  seen : ∀ id ∈ beam.frontier.map Hit.id ++ expanded, id ∈ beam.seen
  kept_length : beam.kept.length = min width beam.seen.size
  all : beam.seen.size < width → ∀ id ∈ beam.seen,
    id ∈ beam.frontier.map Hit.id ++ expanded

variable {beam result : Beam} {trail trail' : Trail} {width : Nat}
  {starts expanded : List PointId} {id : PointId}

theorem size_insert (fresh : id ∉ beam.seen) :
    (beam.seen.insert id).size = beam.seen.size + 1 := by
  rw [Std.HashSet.size_insert, if_neg fresh]

theorem mem_insert {other : PointId} :
    other ∈ beam.seen.insert id ↔ other = id ∨ other ∈ beam.seen := by
  rw [Std.HashSet.mem_insert, beq_iff_eq, eq_comm]

namespace Counts

theorem empty : Beam.empty.Counts [] Trail.empty where
  nodup := List.nodup_nil
  mem_seen_iff _ := iff_of_false Std.HashSet.not_mem_empty List.not_mem_nil
  size_eq := Std.HashSet.size_empty
  measured_eq := rfl
  expanded_eq := rfl

/-- A point is seen for the first time, as a start or when it is measured. -/
theorem see (counts : beam.Counts starts trail) (fresh : id ∉ beam.seen)
    {starts' : List PointId} {measured : Nat}
    (perm : (starts' ++ trail'.measured).Perm
      (id :: (starts ++ trail.measured)))
    (measured_eq : measured = trail'.measured.length)
    (expanded_eq : trail'.expanded = trail.expanded) :
    { beam with seen := beam.seen.insert id, measured }.Counts starts'
      trail' where
  nodup := perm.nodup_iff.mpr (List.nodup_cons.mpr
    ⟨mt (counts.mem_seen_iff id).mpr fresh, counts.nodup⟩)
  mem_seen_iff other := by
    rw [perm.mem_iff, List.mem_cons, ← counts.mem_seen_iff]
    exact mem_insert
  size_eq := by
    rw [perm.length_eq, List.length_cons, ← counts.size_eq]
    exact size_insert fresh
  measured_eq := measured_eq
  expanded_eq := expanded_eq ▸ counts.expanded_eq

theorem note (counts : beam.Counts starts trail) (fresh : id ∉ beam.seen) :
    (beam.note id).Counts starts (trail.measure id) := by
  refine counts.see fresh ?_ ?_ rfl
  · rw [Trail.measure, ← List.append_assoc]
    exact List.perm_append_singleton _ _
  · rw [Trail.measure, List.length_append, counts.measured_eq]
    rfl

/-- Which hits are open and which are kept does not matter. -/
theorem keep (counts : beam.Counts starts trail) (hit : Hit) :
    (beam.keep width hit).Counts starts trail :=
  { counts with }

theorem close (counts : beam.Counts starts trail) (id : PointId)
    (rest : List Hit) :
    { beam with frontier := rest, expanded := beam.expanded + 1 }.Counts starts
      (trail.expand id) :=
  { counts with
    expanded_eq := by
      rw [Trail.expand, List.length_append, ← counts.expanded_eq]
      rfl }

end Counts

namespace Opens

theorem empty (width : Nat) : Beam.empty.Opens width [] where
  nodup := List.nodup_nil
  seen := nofun
  kept_length := by
    rw [Beam.empty, Std.HashSet.size_empty, Nat.min_zero]
    rfl
  all _ _ seen := (Std.HashSet.not_mem_empty seen).elim

/-- A hit is opened when its point is seen for the first time. -/
theorem keep (opens : beam.Opens width expanded) {hit : Hit}
    (fresh : hit.id ∉ beam.seen) (measured : Nat) :
    ({ beam with seen := beam.seen.insert hit.id, measured }.keep width
      hit).Opens width expanded := by
  have perm : ((hit.insert beam.frontier).map Hit.id ++ expanded).Perm
      (hit.id :: (beam.frontier.map Hit.id ++ expanded)) :=
    ((Hit.insert_perm hit beam.frontier).map Hit.id).append_right expanded
  have size : (beam.seen.insert hit.id).size = _ := size_insert fresh
  refine ⟨?_, fun id member => ?_, ?_, fun room id seen => ?_⟩
  · exact perm.nodup_iff.mpr
      (List.nodup_cons.mpr ⟨mt (opens.seen hit.id) fresh, opens.nodup⟩)
  · refine mem_insert.mpr ?_
    exact (List.mem_cons.mp (perm.mem_iff.mp member)).imp_right (opens.seen id)
  · have kept_length := opens.kept_length
    change ((hit.insert beam.kept).take width).length =
      min width (beam.seen.insert hit.id).size
    rw [List.length_take, Hit.length_insert]
    omega
  · change (beam.seen.insert hit.id).size < width at room
    refine perm.mem_iff.mpr (List.mem_cons.mpr ?_)
    exact (mem_insert.mp seen).imp_right (opens.all (by omega) id)

theorem note (opens : beam.Opens width expanded) (fresh : id ∉ beam.seen)
    (full : width ≤ beam.kept.length) :
    (beam.note id).Opens width expanded := by
  have kept_length := opens.kept_length
  have size : (beam.seen.insert id).size = _ := size_insert fresh
  refine ⟨opens.nodup, fun other member => ?_, ?_, fun room => ?_⟩
  · exact mem_insert.mpr (Or.inr (opens.seen other member))
  · change beam.kept.length = min width (beam.seen.insert id).size
    omega
  · change (beam.seen.insert id).size < width at room
    omega

theorem close (opens : beam.Opens width expanded) {next : Hit}
    {rest : List Hit} (open_ : beam.frontier = next :: rest) (count : Nat) :
    { beam with frontier := rest, expanded := count }.Opens width
      (expanded ++ [next.id]) := by
  have perm : (beam.frontier.map Hit.id ++ expanded).Perm
      (rest.map Hit.id ++ (expanded ++ [next.id])) := by
    rw [open_, ← List.append_assoc]
    exact (List.perm_append_singleton _ _).symm
  exact ⟨perm.nodup_iff.mp opens.nodup,
    fun id member => opens.seen id (perm.mem_iff.mpr member),
    opens.kept_length,
    fun room id seen => perm.mem_iff.mp (opens.all room id seen)⟩

end Opens

/-- A beam that has no room for some distance is full. -/
theorem le_length_of_hasRoom_eq_false {distance : Scalar}
    (noRoom : beam.hasRoom width distance = false) :
    width ≤ beam.kept.length := by
  unfold hasRoom at noRoom
  split at noRoom
  · cases noRoom
  · next full => exact Nat.not_lt.mp full

structure Noted (inside : PointId → Prop) (width : Nat)
    (starts : List PointId) (beam : Beam) (trail : Trail) : Prop where
  counts : beam.Counts starts trail
  opens : beam.Opens width trail.expanded
  seen_inside : ∀ id ∈ beam.seen, inside id

namespace Noted

variable {layer : Layer} {inside : PointId → Prop}

theorem insert_inside (noted : beam.Noted inside width starts trail)
    (isInside : inside id) :
    ∀ other ∈ beam.seen.insert id, inside other := by
  intro other member
  rcases mem_insert.mp member with rfl | old
  · exact isInside
  · exact noted.seen_inside other old

theorem meet (noted : beam.Noted inside width starts trail)
    (isInside : inside id)
    (met : layer.meetNoted width beam trail id = .ok (result, trail')) :
    result.Noted inside width starts trail' := by
  rcases Layer.meetNoted_cases met with
    ⟨_, rfl, rfl⟩ | ⟨fresh, rfl, distance, rfl | ⟨noRoom, rfl⟩⟩
  · exact noted
  · exact ⟨(noted.counts.note fresh).keep _, noted.opens.keep fresh _,
      noted.insert_inside isInside⟩
  · exact ⟨noted.counts.note fresh,
      noted.opens.note fresh (le_length_of_hasRoom_eq_false noRoom),
      noted.insert_inside isInside⟩

theorem expand (noted : beam.Noted inside width starts trail)
    (closed : ∀ {id neighbors neighbor}, inside id →
      layer.neighbors id = .ok neighbors → neighbor ∈ neighbors →
        inside neighbor)
    {next : Hit} {rest : List Hit} (open_ : beam.frontier = next :: rest)
    (expanded : layer.expandNoted width beam trail next rest =
      .ok (result, trail')) :
    result.Noted inside width starts trail' := by
  have nextOpen : next.id ∈ beam.frontier.map Hit.id ++ trail.expanded := by
    rw [open_]
    exact List.mem_append_left _ List.mem_cons_self
  have nextInside := noted.seen_inside _ (noted.opens.seen _ nextOpen)
  obtain ⟨neighbors, listed, met⟩ := Layer.neighbors_of_expandNoted expanded
  exact Layer.meetAllNoted_induction (motive := Noted inside width starts)
    (fun member met earlier =>
      earlier.meet (closed nextInside listed member) met) met
    ⟨noted.counts.close _ _, noted.opens.close open_ _, noted.seen_inside⟩

theorem seed (noted : beam.Noted inside width starts Trail.empty) {hit : Hit}
    (isInside : inside hit.id) :
    ∃ starts', (∀ id, id ∈ starts' ↔ id ∈ starts ∨ id = hit.id) ∧
      (beam.seed width hit).Noted inside width starts' Trail.empty := by
  unfold Beam.seed
  split
  · next known =>
      have start : hit.id ∈ starts := by
        have seen := (noted.counts.mem_seen_iff _).mp
          (Std.HashSet.contains_iff_mem.mp known)
        rwa [Trail.empty, List.append_nil] at seen
      refine ⟨starts, fun id => (or_iff_left_of_imp ?_).symm, noted⟩
      rintro rfl
      exact start
  · next unknown =>
      have fresh := mt Std.HashSet.contains_iff_mem.mpr unknown
      refine ⟨hit.id :: starts, fun id => ?_,
        (noted.counts.see fresh (List.Perm.refl _) noted.counts.measured_eq
          rfl).keep hit,
        noted.opens.keep fresh _, noted.insert_inside isInside⟩
      rw [List.mem_cons, or_comm]

theorem foldl_seed (noted : beam.Noted inside width starts Trail.empty)
    {seeds : List Hit} (seedsInside : ∀ seed ∈ seeds, inside seed.id) :
    ∃ starts', (∀ id, id ∈ starts' ↔ id ∈ starts ∨ id ∈ seeds.map Hit.id) ∧
      (seeds.foldl (Beam.seed width) beam).Noted inside width starts'
        Trail.empty := by
  induction seeds generalizing beam starts with
  | nil => exact ⟨starts, by simp, noted⟩
  | cons hit rest inductionHypothesis =>
      obtain ⟨starts', first_iff, first⟩ :=
        noted.seed (seedsInside hit List.mem_cons_self)
      obtain ⟨starts'', rest_iff, later⟩ := inductionHypothesis first
        fun other member => seedsInside other (List.mem_cons_of_mem _ member)
      refine ⟨starts'', fun id => ?_, later⟩
      rw [rest_iff, first_iff, List.map_cons, List.mem_cons, or_assoc]

theorem ofSeeds (width : Nat) {seeds : List Hit}
    (seedsInside : ∀ seed ∈ seeds, inside seed.id) :
    ∃ starts, (∀ id, id ∈ starts ↔ id ∈ seeds.map Hit.id) ∧
      (Beam.ofSeeds width seeds).Noted inside width starts Trail.empty := by
  have start : Beam.empty.Noted inside width [] Trail.empty :=
    ⟨Counts.empty, Opens.empty width,
      fun _ seen => (Std.HashSet.not_mem_empty seen).elim⟩
  obtain ⟨starts, starts_iff, noted⟩ := start.foldl_seed seedsInside
  refine ⟨starts, fun id => ?_, noted⟩
  rw [starts_iff, or_iff_right List.not_mem_nil]

theorem subset_seen (noted : beam.Noted inside width starts trail) :
    trail.expanded ⊆ starts ++ trail.measured := fun id member =>
  (noted.counts.mem_seen_iff id).mp
    (noted.opens.seen id (List.mem_append_right _ member))

theorem expanded_nodup (noted : beam.Noted inside width starts trail) :
    trail.expanded.Nodup :=
  (List.nodup_append.mp noted.opens.nodup).2.1

theorem length_expanded_le (noted : beam.Noted inside width starts trail) :
    trail.expanded.length ≤ beam.seen.size := by
  rw [noted.counts.size_eq]
  exact (noted.expanded_nodup.subperm noted.subset_seen).length_le

/-- A search that returns fewer hits than it may has expanded all points that
it has seen. -/
theorem mem_expanded_iff (noted : beam.Noted inside width starts trail)
    (ended : ∀ next rest, beam.frontier = next :: rest →
      beam.isSettled width next = true)
    (few : beam.kept.length < width) (id : PointId) :
    id ∈ trail.expanded ↔ id ∈ beam.seen := by
  -- With room left a beam is not settled, so it ends with no hit open.
  have closed : beam.frontier = [] := by
    cases open_ : beam.frontier with
    | nil => rfl
    | cons next rest =>
        have settled := ended next rest open_
        rw [isSettled, if_pos few] at settled
        cases settled
  have room : beam.seen.size < width := by
    have := noted.opens.kept_length
    omega
  have seen := noted.opens.seen id
  have all := noted.opens.all room id
  rw [closed, List.map_nil, List.nil_append] at seen all
  exact ⟨seen, all⟩

theorem length_expanded_eq (noted : beam.Noted inside width starts trail)
    (all : ∀ id, id ∈ trail.expanded ↔ id ∈ beam.seen) :
    trail.expanded.length = beam.seen.size := by
  rw [noted.counts.size_eq]
  refine ((List.perm_ext_iff_of_nodup noted.expanded_nodup
    noted.counts.nodup).mpr fun id => ?_).length_eq
  rw [all, noted.counts.mem_seen_iff]

/-- The seen points are counted as the different ones among the seeds and the
measured points. -/
theorem length_dedup (noted : beam.Noted inside width starts trail)
    {ids : List PointId} (starts_iff : ∀ id, id ∈ starts ↔ id ∈ ids) :
    ids.dedup.length = starts.length ∧
      (ids ++ trail.measured).dedup.length = beam.seen.size := by
  have nodup := noted.counts.nodup
  constructor
  · refine ((List.perm_ext_iff_of_nodup (List.nodup_dedup ids)
      (List.nodup_append.mp nodup).1).mpr fun id => ?_).length_eq
    rw [List.mem_dedup, starts_iff]
  · rw [noted.counts.size_eq]
    refine ((List.perm_ext_iff_of_nodup (List.nodup_dedup _)
      nodup).mpr fun id => ?_).length_eq
    rw [List.mem_dedup, List.mem_append, List.mem_append, starts_iff]

end Noted

/-- Whether all neighbours of the points expanded have been seen. -/
def Closed (layer : Layer) (beam : Beam) (trail : Trail) : Prop :=
  ∀ id ∈ trail.expanded, ∀ neighbors, layer.neighbors id = .ok neighbors →
    ∀ neighbor ∈ neighbors, neighbor ∈ beam.seen

end Beam

namespace Layer

variable {layer : Layer} {width : Nat} {beam result : Beam}
  {trail trail' : Trail} {inside : PointId → Prop}

/-- Meeting neighbours expands none of them, and all of them are seen. -/
theorem seen_of_meetAllNoted {ids : List PointId}
    (met : layer.meetAllNoted width beam trail ids = .ok (result, trail')) :
    trail'.expanded = trail.expanded ∧
      (∀ id ∈ beam.seen, id ∈ result.seen) ∧ ∀ id ∈ ids, id ∈ result.seen := by
  induction ids generalizing beam trail with
  | nil =>
      cases met
      exact ⟨rfl, fun _ old => old, nofun⟩
  | cons id rest inductionHypothesis =>
      unfold meetAllNoted at met
      split at met
      · cases met
      · next middle trail'' first =>
          obtain ⟨expanded_eq, seen, others⟩ := inductionHypothesis met
          have here : trail''.expanded = trail.expanded ∧
              (∀ other ∈ beam.seen, other ∈ middle.seen) ∧
                id ∈ middle.seen := by
            rcases meetNoted_cases first with
              ⟨known, rfl, rfl⟩ | ⟨_, rfl, _, rfl | ⟨_, rfl⟩⟩
            · exact ⟨rfl, fun _ old => old, known⟩
            · exact ⟨rfl, fun _ old => Beam.mem_insert.mpr (Or.inr old),
                Beam.mem_insert.mpr (Or.inl rfl)⟩
            · exact ⟨rfl, fun _ old => Beam.mem_insert.mpr (Or.inr old),
                Beam.mem_insert.mpr (Or.inl rfl)⟩
          exact ⟨expanded_eq.trans here.1,
            fun other old => seen other (here.2.1 other old),
            List.forall_mem_cons.mpr ⟨seen id here.2.2, others⟩⟩

/-- The neighbours of the point expanded last are seen at once. -/
theorem closed_of_expandNoted (closed : beam.Closed layer trail) {next : Hit}
    {rest : List Hit}
    (expanded : layer.expandNoted width beam trail next rest =
      .ok (result, trail')) : result.Closed layer trail' := by
  obtain ⟨neighbors, listed, met⟩ := neighbors_of_expandNoted expanded
  obtain ⟨expanded_eq, seen, all⟩ := seen_of_meetAllNoted met
  intro id member neighbors' listed' neighbor edge
  rw [expanded_eq] at member
  rcases List.mem_append.mp member with earlier | last
  · exact seen _ (closed id earlier neighbors' listed' neighbor edge)
  · rw [List.mem_singleton.mp last] at listed'
    cases listed.symm.trans listed'
    exact all neighbor edge

theorem noted_of_searchNoted (inside : PointId → Prop) {seeds : List Hit}
    (closed : ∀ {id neighbors neighbor}, inside id →
      layer.neighbors id = .ok neighbors → neighbor ∈ neighbors →
        inside neighbor)
    (seedsInside : ∀ seed ∈ seeds, inside seed.id)
    (searched : layer.searchNoted seeds width = .ok (beam, trail)) :
    ∃ starts, (∀ id, id ∈ starts ↔ id ∈ seeds.map Hit.id) ∧
      beam.Noted inside width starts trail ∧ beam.Closed layer trail ∧
      ∀ next rest, beam.frontier = next :: rest →
        beam.isSettled width next = true := by
  obtain ⟨starts, starts_iff, noted⟩ :=
    Beam.Noted.ofSeeds width seedsInside
  obtain ⟨⟨noted', closed'⟩, ended⟩ := exploreNoted_induction
    (motive := fun beam trail => beam.Noted inside width starts trail ∧
      beam.Closed layer trail)
    (fun open_ expanded earlier => ⟨earlier.1.expand closed open_ expanded,
      closed_of_expandNoted earlier.2 expanded⟩)
    searched ⟨noted, nofun⟩
  exact ⟨starts, starts_iff, noted', closed', ended⟩

end Layer

/-- The work of a search from some seeds, in terms of its notes. -/
structure Beam.Accounts (links : Links) (level : Nat) (seeds : List Hit)
    (width : Nat) (beam : Beam) (trail : Trail) : Prop where
  /-- No point is expanded twice. -/
  expanded_nodup : trail.expanded.Nodup
  /-- No point is measured twice, and no seed is measured. -/
  measured_nodup : trail.measured.Nodup
  measured_notMem : ∀ id ∈ trail.measured, id ∉ seeds.map Hit.id
  visited_eq : beam.work.visited =
    (seeds.map Hit.id ++ trail.measured).dedup.length
  distances_eq : beam.work.distances = trail.measured.length
  distances_add : beam.work.distances + (seeds.map Hit.id).dedup.length =
    beam.work.visited
  hops_eq : beam.work.hops = trail.expanded.length
  hops_le : beam.work.hops ≤ beam.work.visited
  exhausted : beam.kept.length < width → ∃ region : List PointId,
    region.Nodup ∧ (∀ id, id ∈ region ↔ links.LeadsFrom level seeds id) ∧
    beam.work.hops = region.length ∧ beam.work.visited = region.length

/-- Where all points seen have been expanded, they are all to which the seeds
lead. -/
theorem Beam.Closed.mem_seen_iff {cloud : Cloud} {links : Links}
    {query : Coordinates} {level : Nat} {seeds : List Hit} {beam : Beam}
    {trail : Trail}
    (closed : beam.Closed (Layer.of cloud links query level) trail)
    (all : ∀ id, id ∈ trail.expanded ↔ id ∈ beam.seen)
    (seedsSeen : ∀ seed ∈ seeds, seed.id ∈ beam.seen)
    (led : ∀ id ∈ beam.seen, links.LeadsFrom level seeds id) (id : PointId) :
    id ∈ beam.seen ↔ links.LeadsFrom level seeds id := by
  refine ⟨led id, ?_⟩
  rintro ⟨seed, listed, path⟩
  induction path with
  | refl => exact seedsSeen seed listed
  | tail _ edge inductionHypothesis =>
      obtain ⟨neighbors, found, member⟩ := edge
      exact closed _ ((all _).mpr inductionHypothesis) neighbors found _ member

namespace Walkable

variable {cloud : Cloud} {links : Links} {query : Coordinates} {level : Nat}
  {seeds : List Hit}

theorem search_accounts (walkable : Walkable cloud links query level)
    (onLevel : ∀ seed ∈ seeds, links.Reaches level seed.id) (width : Nat) :
    ∃ beam trail,
      (Layer.of cloud links query level).search seeds width = .ok beam ∧
      (Layer.of cloud links query level).searchNoted seeds width =
        .ok (beam, trail) ∧
      beam.Accounts links level seeds width trail := by
  have seedsLed : ∀ seed ∈ seeds, links.LeadsFrom level seeds seed.id :=
    fun seed listed => ⟨seed, listed, .refl⟩
  obtain ⟨beam, searched, _⟩ :=
    Layer.search_eq (walkable.presents onLevel) seeds seedsLed width
  obtain ⟨trail, searchedNoted⟩ := Layer.exists_noted_of_search searched
  obtain ⟨starts, starts_iff, noted, closed, ended⟩ :=
    Layer.noted_of_searchNoted (links.LeadsFrom level seeds)
      (fun ⟨seed, seedListed, path⟩ listed member =>
        ⟨seed, seedListed, path.tail ⟨_, listed, member⟩⟩)
      seedsLed searchedNoted
  have counts := noted.counts
  obtain ⟨_, measuredNodup, apart⟩ := List.nodup_append.mp counts.nodup
  obtain ⟨starts_length, visited⟩ := noted.length_dedup starts_iff
  have measured_eq : beam.work.distances = trail.measured.length :=
    counts.measured_eq
  have hops_eq : beam.work.hops = trail.expanded.length := counts.expanded_eq
  have visited_eq : beam.work.visited = (starts ++ trail.measured).length :=
    counts.size_eq
  refine ⟨beam, trail, searched, searchedNoted, noted.expanded_nodup,
    measuredNodup, fun id measured seed => ?_, visited.symm, measured_eq, ?_,
    hops_eq, hops_eq ▸ noted.length_expanded_le, fun few => ?_⟩
  · exact apart id ((starts_iff id).mpr seed) id measured rfl
  · rw [visited_eq, List.length_append, starts_length, measured_eq,
      Nat.add_comm]
  · have all := noted.mem_expanded_iff ended few
    have seen_iff := closed.mem_seen_iff all (fun seed listed => by
      rw [counts.mem_seen_iff]
      exact List.mem_append_left _
        ((starts_iff _).mpr (List.mem_map_of_mem listed))) noted.seen_inside
    refine ⟨starts ++ trail.measured, counts.nodup, fun id => ?_, ?_,
      visited_eq⟩
    · rw [← counts.mem_seen_iff, seen_iff]
    · rw [hops_eq, noted.length_expanded_eq all, counts.size_eq]

end Walkable

end SmallWorld
