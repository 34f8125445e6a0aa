import SmallWorld.Proofs.Links.Paths
import SmallWorld.Traversal.Reach

/-!
# Points met by a flood

A flood meets exactly the points to which the runs lead from its start
(`Represents.reachable_eq`).  At any time the points met can be reached, and
those not in the queue have had all their neighbours met (`Flooded`).
-/

namespace SmallWorld

theorem discover_eq {size : Nat} {neighbors : List PointId}
    (met : Std.HashSet PointId) (inside : ∀ id ∈ neighbors, id < size) :
    ∃ fresh met', discover size neighbors met = .ok (fresh, met') ∧
      (∀ id ∈ fresh, id ∈ neighbors) ∧
      (∀ id, id ∈ met' ↔ id ∈ met ∨ id ∈ fresh) ∧
      ∀ id ∈ neighbors, id ∈ met' := by
  induction neighbors generalizing met with
  | nil => exact ⟨[], met, rfl, by simp, by simp, by simp⟩
  | cons id rest inductionHypothesis =>
      have restInside : ∀ other ∈ rest, other < size :=
        fun other member => inside other (List.mem_cons_of_mem _ member)
      unfold discover
      cases known : met.contains id with
      | true =>
          obtain ⟨fresh, met', discovered, listed, met_iff, all⟩ :=
            inductionHypothesis met restInside
          refine ⟨fresh, met', discovered,
            fun other member => List.mem_cons_of_mem _ (listed other member),
            met_iff, fun other member => ?_⟩
          rcases List.mem_cons.mp member with rfl | later
          · exact (met_iff other).mpr
              (Or.inl (Std.HashSet.contains_iff_mem.mp known))
          · exact all other later
      | false =>
          obtain ⟨fresh, met', discovered, listed, met_iff, all⟩ :=
            inductionHypothesis (met.insert id) restInside
          simp only [Bool.false_eq_true, if_false,
            if_pos (inside id List.mem_cons_self), discovered]
          refine ⟨id :: fresh, met', rfl, fun other member => ?_,
            fun other => ?_, fun other member => ?_⟩
          · rcases List.mem_cons.mp member with rfl | later
            · exact List.mem_cons_self
            · exact List.mem_cons_of_mem _ (listed other later)
          · rw [met_iff, Std.HashSet.mem_insert, beq_iff_eq, List.mem_cons,
              eq_comm, or_assoc, or_left_comm]
          · rcases List.mem_cons.mp member with rfl | later
            · refine (met_iff other).mpr (Or.inl ?_)
              exact Std.HashSet.mem_insert_self
            · exact all other later

namespace Links

/-- The state of a flood: all points met can be reached, the queue consists
of points met, and all others have had their neighbours met. -/
structure Flooded (links : Links) (runs : Runs) (level : Nat)
    (start : PointId) (queue : List PointId) (met : Std.HashSet PointId) :
    Prop where
  start_met : start ∈ met
  leads : ∀ id ∈ met, links.LeadsTo level start id
  queue_met : ∀ id ∈ queue, id ∈ met
  closed : ∀ id ∈ met, id ∉ queue → ∀ neighbor ∈ runs id level,
    neighbor ∈ met

variable {links : Links} {runs : Runs} {level : Nat} {start : PointId}

/-- A flood that has come to its end has met all that can be reached. -/
theorem Flooded.mem_iff {met : Std.HashSet PointId}
    (represents : links.Represents runs) (proper : runs.Proper links.Reaches)
    (startReaches : links.Reaches level start)
    (flooded : links.Flooded runs level start [] met) (id : PointId) :
    id ∈ met ↔ links.LeadsTo level start id := by
  refine ⟨flooded.leads id, fun path => ?_⟩
  induction path with
  | refl => exact flooded.start_met
  | tail earlier edge inductionHypothesis =>
      obtain ⟨neighbors, listed, member⟩ := edge
      rw [represents.neighbors_eq
        (LeadsTo.reaches represents proper startReaches earlier)] at listed
      cases listed
      exact flooded.closed _ inductionHypothesis List.not_mem_nil _ member

theorem Flooded.neighbors_eq {id : PointId} {queue : List PointId}
    {met : Std.HashSet PointId}
    (flooded : links.Flooded runs level start (id :: queue) met)
    (represents : links.Represents runs) (proper : runs.Proper links.Reaches)
    (startReaches : links.Reaches level start) :
    links.neighbors id level = .ok (runs id level) ∧
      ∀ neighbor ∈ runs id level, neighbor < links.size := by
  have path := flooded.leads id (flooded.queue_met id List.mem_cons_self)
  have reaches := path.reaches represents proper startReaches
  exact ⟨represents.neighbors_eq reaches,
    fun _ member => (proper.reaches reaches member).lt_size⟩

/-- A point is taken from the queue, and its neighbours not met before are put
at the end. -/
theorem Flooded.discover {id : PointId} {queue fresh : List PointId}
    {met met' : Std.HashSet PointId}
    (flooded : links.Flooded runs level start (id :: queue) met)
    (neighbors_eq : links.neighbors id level = .ok (runs id level))
    (listed : ∀ other ∈ fresh, other ∈ runs id level)
    (met_iff : ∀ other, other ∈ met' ↔ other ∈ met ∨ other ∈ fresh)
    (all : ∀ other ∈ runs id level, other ∈ met') :
    links.Flooded runs level start (queue ++ fresh) met' where
  start_met := (met_iff start).mpr (Or.inl flooded.start_met)
  leads := by
    intro other member
    rcases (met_iff other).mp member with earlier | new
    · exact flooded.leads other earlier
    · exact (flooded.leads id (flooded.queue_met id List.mem_cons_self)).tail
        ⟨_, neighbors_eq, listed other new⟩
  queue_met := by
    intro other member
    rcases List.mem_append.mp member with queued | new
    · exact (met_iff other).mpr (Or.inl
        (flooded.queue_met other (List.mem_cons_of_mem _ queued)))
    · exact (met_iff other).mpr (Or.inr new)
  closed := by
    intro other member unqueued neighbor edge
    obtain ⟨notQueued, notFresh⟩ :=
      not_or.mp (mt List.mem_append.mpr unqueued)
    by_cases same : other = id
    · exact all neighbor (same ▸ edge)
    · have earlier := ((met_iff other).mp member).resolve_right notFresh
      refine (met_iff neighbor).mpr (Or.inl
        (flooded.closed other earlier (fun queued => ?_) neighbor edge))
      exact (List.mem_cons.mp queued).elim same notQueued

theorem Represents.flood_eq (represents : links.Represents runs)
    (proper : runs.Proper links.Reaches)
    (startReaches : links.Reaches level start) {queue : List PointId}
    {met : Std.HashSet PointId}
    (flooded : links.Flooded runs level start queue met) :
    ∃ final, links.flood level queue met = .ok final ∧
      ∀ id, id ∈ final ↔ links.LeadsTo level start id := by
  -- The flood has a case for each fault; the invariant refutes these.
  induction queue, met using Links.flood.induct links level with
  | case1 met =>
      rw [flood]
      exact ⟨met, rfl, flooded.mem_iff represents proper startReaches⟩
  | case2 met id queue fault failed =>
      obtain ⟨neighbors_eq, _⟩ :=
        flooded.neighbors_eq represents proper startReaches
      cases neighbors_eq.symm.trans failed
  | case3 met id queue neighbors listed fault failed =>
      obtain ⟨neighbors_eq, inside⟩ :=
        flooded.neighbors_eq represents proper startReaches
      cases neighbors_eq.symm.trans listed
      obtain ⟨_, _, discovered, _⟩ := discover_eq met inside
      cases discovered.symm.trans failed
  | case4 met id queue neighbors listed fresh met' ended inductionHypothesis =>
      obtain ⟨neighbors_eq, inside⟩ :=
        flooded.neighbors_eq represents proper startReaches
      cases neighbors_eq.symm.trans listed
      obtain ⟨_, _, discovered, freshListed, met_iff, all⟩ :=
        discover_eq met inside
      cases discovered.symm.trans ended
      obtain ⟨final, final_eq, final_iff⟩ := inductionHypothesis
        (flooded.discover neighbors_eq freshListed met_iff all)
      refine ⟨final, ?_, final_iff⟩
      rw [flood, listed]
      dsimp only
      split
      · next failed => cases ended.symm.trans failed
      · next again =>
          cases ended.symm.trans again
          exact final_eq

/-- All that can be reached is met, and nothing else. -/
theorem Represents.reachable_eq (represents : links.Represents runs)
    (proper : runs.Proper links.Reaches)
    (startReaches : links.Reaches level start) :
    ∃ met, links.reachable level start = .ok met ∧
      ∀ id, id ∈ met ↔ links.LeadsTo level start id := by
  refine represents.flood_eq proper startReaches ⟨?_, ?_, ?_, ?_⟩
  · exact Std.HashSet.mem_insert_self
  · intro id member
    rcases Std.HashSet.mem_insert.mp member with same | none
    · rw [← eq_of_beq same]
      exact .refl
    · exact (Std.HashSet.not_mem_empty none).elim
  · intro id member
    rw [List.mem_singleton.mp member]
    exact Std.HashSet.mem_insert_self
  · intro id member unqueued
    rcases Std.HashSet.mem_insert.mp member with same | none
    · rw [← eq_of_beq same] at unqueued
      exact absurd List.mem_cons_self unqueued
    · exact (Std.HashSet.not_mem_empty none).elim

end Links

end SmallWorld
