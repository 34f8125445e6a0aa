import SmallWorld.Index.Audit
import SmallWorld.Proofs.Journal
import SmallWorld.Proofs.Links.Runs
import Mathlib.Data.List.TakeWhile

/-!
# What an audit finds in a run

Whatever the slots of a run hold, its audit counts: a violation is found as
often as the neighbour that is to blame is listed, a repeated neighbour once
less often, and a gap once (`Links.RunReported`).  It finds nothing exactly if
the run lists different other points that reach its level, with free slots
behind them (`Links.RunReported.clean_iff`).
-/

namespace SmallWorld

def Violation.run? : Violation → Option (PointId × Nat)
  | .gap id level => some (id, level)
  | .selfLoop id level => some (id, level)
  | .outOfRange id level _ => some (id, level)
  | .duplicate id level _ => some (id, level)
  | .belowLevel id level _ => some (id, level)
  | .blockSize _ _ _ => none
  | .entryLevel _ _ _ => none

namespace Links

instance (links : Links) (level : Nat) (id : PointId) :
    Decidable (links.Reaches level id) :=
  decidable_of_iff (∃ own ∈ links.levels[id]?, level ≤ own) (by rfl)

/-- Violations report a run with the given slots: those before the first free
one are its neighbours, and the others should be free. -/
structure RunReported (links : Links) (id : PointId) (level : Nat)
    (run : List PointId) (violations : List Violation) : Prop where
  gap : violations.count (.gap id level) =
    if ∃ slot ∈ run.drop (listed run).length, slot ≠ noNeighbor then 1 else 0
  selfLoop : violations.count (.selfLoop id level) = (listed run).count id
  outOfRange : ∀ neighbor,
    violations.count (.outOfRange id level neighbor) =
      if links.size ≤ neighbor then (listed run).count neighbor else 0
  belowLevel : ∀ neighbor,
    violations.count (.belowLevel id level neighbor) =
      if neighbor < links.size ∧ ¬ links.Reaches level neighbor then
        (listed run).count neighbor
      else
        0
  duplicate : ∀ neighbor,
    violations.count (.duplicate id level neighbor) =
      if neighbor < links.size then (listed run).count neighbor - 1 else 0

/-- A run that lists different other points, all of which reach its level,
with free slots behind them. -/
def Tidy (links : Links) (id : PointId) (level : Nat)
    (run : List PointId) : Prop :=
  ∃ neighbors free, run = neighbors ++ List.replicate free noNeighbor ∧
    noNeighbor ∉ neighbors ∧ neighbors.Nodup ∧
    ∀ neighbor ∈ neighbors, neighbor ≠ id ∧ links.Reaches level neighbor

variable {links : Links} {id : PointId} {level : Nat} {run : List PointId}
  {violations : List Violation}

/-- A violation, if there is one. -/
def flag (condition : Prop) [Decidable condition] (violation : Violation) :
    List Violation :=
  if condition then [violation] else []

/-- What is wrong with a neighbour of a run that lists others before it. -/
def verdict (links : Links) (id : PointId) (level : Nat)
    (earlier : List PointId) (neighbor : PointId) : List Violation :=
  flag (neighbor = id) (.selfLoop id level) ++
    flag (links.size ≤ neighbor) (.outOfRange id level neighbor) ++
    flag (neighbor < links.size ∧ ¬ links.Reaches level neighbor)
      (.belowLevel id level neighbor) ++
    flag (neighbor < links.size ∧ neighbor ∈ earlier)
      (.duplicate id level neighbor)

theorem count_flag (condition : Prop) [Decidable condition]
    (found violation : Violation) :
    (flag condition found).count violation =
      if condition ∧ found = violation then 1 else 0 := by
  by_cases holds : condition <;> simp [flag, holds, List.count_singleton]

/-- Neighbours are judged one after the other, and no defect hides another
one.  Those that are no points are not remembered. -/
theorem auditNeighbors_cons (reaches : links.Reaches level id)
    (earlier rest : List PointId) (neighbor : PointId) :
    links.auditNeighbors id level earlier (neighbor :: rest) =
      links.verdict id level earlier neighbor ++
        links.auditNeighbors id level
          (if links.size ≤ neighbor then earlier else neighbor :: earlier)
          rest := by
  rw [auditNeighbors, verdict, auditNeighbors.repeated]
  by_cases self : neighbor = id
  · subst self
    simp [flag, reaches, reaches.lt_size, Nat.not_le.mpr reaches.lt_size]
  · by_cases outside : links.size ≤ neighbor
    · have missing : links.levels[neighbor]? = none :=
        Array.getElem?_eq_none outside
      simp [flag, self, outside, missing, Nat.not_lt.mpr outside]
    · have inside : neighbor < links.size := Nat.not_le.mp outside
      obtain ⟨own, found⟩ : ∃ own, links.levels[neighbor]? = some own :=
        ⟨_, Array.getElem?_eq_getElem inside⟩
      have reached : links.Reaches level neighbor ↔ ¬ own < level := by
        simp [Reaches, found]
      by_cases below : own < level <;>
        simp [flag, self, outside, inside, found, reached, below]

section Counts

variable (reaches : links.Reaches level id)
include reaches

/-- A violation that does not depend on the neighbours before is found once
for each neighbour that is to blame. -/
theorem count_auditNeighbors {violation : Violation}
    (toBlame : PointId → Bool)
    (judged : ∀ earlier neighbor,
      (links.verdict id level earlier neighbor).count violation =
        if toBlame neighbor then 1 else 0)
    (earlier neighbors : List PointId) :
    (links.auditNeighbors id level earlier neighbors).count violation =
      neighbors.countP toBlame := by
  induction neighbors generalizing earlier with
  | nil => rfl
  | cons neighbor rest inductionHypothesis =>
      rw [auditNeighbors_cons reaches, List.count_append, judged,
        inductionHypothesis, List.countP_cons, Nat.add_comm]

/-- A neighbour that is listed again is found each time but the first. -/
theorem count_duplicate_auditNeighbors (earlier neighbors : List PointId)
    (neighbor : PointId) :
    (links.auditNeighbors id level earlier neighbors).count
        (.duplicate id level neighbor) =
      if neighbor < links.size then
        neighbors.count neighbor - if neighbor ∈ earlier then 0 else 1
      else
        0 := by
  induction neighbors generalizing earlier with
  | nil => simp [auditNeighbors]
  | cons first rest inductionHypothesis =>
      have judged : (links.verdict id level earlier first).count
          (.duplicate id level neighbor) =
          if (first < links.size ∧ first ∈ earlier) ∧ first = neighbor then
            1
          else
            0 := by
        simp [verdict, count_flag]
      rw [auditNeighbors_cons reaches, List.count_append, judged,
        inductionHypothesis, List.count_cons]
      by_cases same : first = neighbor
      · subst same
        by_cases inside : first < links.size
        · by_cases known : first ∈ earlier
          · simp [inside, Nat.not_le.mpr inside, known, Nat.add_comm]
          · simp [inside, Nat.not_le.mpr inside, known]
        · simp [inside]
      · by_cases outside : links.size ≤ first
        · simp [same, outside]
        · simp [same, Ne.symm same, outside]

end Counts

theorem countP_and_eq (neighbors : List PointId) (neighbor : PointId)
    (condition : PointId → Prop) [DecidablePred condition] :
    (neighbors.countP fun other => condition other ∧ other = neighbor) =
      if condition neighbor then neighbors.count neighbor else 0 := by
  by_cases holds : condition neighbor
  · rw [if_pos holds, List.count_eq_countP]
    refine List.countP_congr fun other _ => ?_
    simp only [decide_eq_true_eq, beq_iff_eq]
    exact and_iff_right_of_imp fun same => same ▸ holds
  · rw [if_neg holds, List.countP_eq_zero]
    intro other _
    simp only [decide_eq_true_eq, not_and]
    exact fun otherHolds same => holds (same ▸ otherHolds)

theorem run?_of_mem_auditNeighbors (reaches : links.Reaches level id)
    {earlier neighbors : List PointId} {violation : Violation}
    (found : violation ∈ links.auditNeighbors id level earlier neighbors) :
    violation.run? = some (id, level) := by
  induction neighbors generalizing earlier with
  | nil => simp [auditNeighbors] at found
  | cons neighbor rest inductionHypothesis =>
      rw [auditNeighbors_cons reaches, List.mem_append] at found
      rcases found with here | later
      · have here' : violation ∈ links.verdict id level earlier neighbor :=
          here
        simp only [verdict, flag, List.mem_append, List.mem_ite_nil_right,
          List.mem_singleton, or_assoc] at here'
        obtain ⟨_, rfl⟩ | ⟨_, rfl⟩ | ⟨_, rfl⟩ | ⟨_, rfl⟩ := here' <;> rfl
      · exact inductionHypothesis later

/-- The audit of a run reports its slots, and nothing about other runs. -/
theorem auditRun_eq (reaches : links.Reaches level id)
    (read : links.run id level = .ok run) :
    ∃ violations, links.auditRun id level = .ok violations ∧
      links.RunReported id level run violations ∧
      ∀ violation ∈ violations, violation.run? = some (id, level) := by
  have audited : links.auditRun id level = .ok
      (flag (∃ slot ∈ run.drop (listed run).length, slot ≠ noNeighbor)
          (.gap id level) ++
        links.auditNeighbors id level [] (listed run)) := by
    simp only [auditRun, read, ok_bind, flag, List.any_eq_true,
      bne_iff_ne]
    rfl
  refine ⟨_, audited, ?_, fun violation found => ?_⟩
  · constructor
    · rw [List.count_append, count_flag, count_auditNeighbors reaches
        (fun _ => false) (by simp [verdict, count_flag])]
      simp
    · rw [List.count_append, count_flag, count_auditNeighbors reaches
        (· = id) (by simp [verdict, count_flag])]
      simp [List.count_eq_countP, beq_eq_decide]
    · intro neighbor
      rw [List.count_append, count_flag, count_auditNeighbors reaches
        (fun other => links.size ≤ other ∧ other = neighbor)
        (by simp [verdict, count_flag]), countP_and_eq]
      simp
    · intro neighbor
      rw [List.count_append, count_flag, count_auditNeighbors reaches
        (fun other =>
          (other < links.size ∧ ¬ links.Reaches level other) ∧
            other = neighbor)
        (by simp [verdict, count_flag]), countP_and_eq]
      simp
    · intro neighbor
      rw [List.count_append, count_flag,
        count_duplicate_auditNeighbors reaches]
      simp
  · rw [List.mem_append, flag, List.mem_ite_nil_right,
      List.mem_singleton] at found
    rcases found with ⟨_, rfl⟩ | listed
    · rfl
    · exact run?_of_mem_auditNeighbors reaches listed

theorem listed_append_replicate {neighbors : List PointId}
    (real : noNeighbor ∉ neighbors) (free : Nat) :
    listed (neighbors ++ List.replicate free noNeighbor) = neighbors := by
  have sized : padded (neighbors.length + free) neighbors =
      neighbors ++ List.replicate free noNeighbor := by
    rw [padded, Nat.add_sub_cancel_left]
  rw [← sized, listed_padded real]

/-- The neighbours of a run and the slots behind them. -/
theorem listed_append_drop (run : List PointId) :
    listed run ++ run.drop (listed run).length = run := by
  rw [listed]
  exact List.prefix_iff_eq_append.mp (List.takeWhile_prefix _)

theorem noNeighbor_notMem_listed (run : List PointId) :
    noNeighbor ∉ listed run := fun member => by
  simpa using List.mem_takeWhile_imp member

namespace RunReported

/-- A run about which nothing is reported is tidy. -/
theorem tidy (reported : links.RunReported id level run violations)
    (nothing : ∀ violation : Violation,
      violation.run? = some (id, level) → violations.count violation = 0) :
    links.Tidy id level run := by
  have inside : ∀ neighbor ∈ listed run, neighbor < links.size := by
    intro neighbor member
    have counted := (reported.outOfRange neighbor).symm.trans (nothing _ rfl)
    by_contra outside
    rw [if_pos (Nat.not_lt.mp outside)] at counted
    exact List.count_eq_zero.mp counted member
  refine ⟨listed run, (run.drop (listed run).length).length, ?_,
    noNeighbor_notMem_listed run, ?_, fun neighbor member => ⟨?_, ?_⟩⟩
  · have noGap := reported.gap.symm.trans (nothing _ rfl)
    have free : ∀ slot ∈ run.drop (listed run).length,
        slot = noNeighbor := by
      simpa using noGap
    rw [← List.eq_replicate_of_mem free, listed_append_drop]
  · refine List.nodup_iff_count_le_one.mpr fun neighbor => ?_
    by_cases member : neighbor ∈ listed run
    · have counted := (reported.duplicate neighbor).symm.trans (nothing _ rfl)
      rw [if_pos (inside neighbor member)] at counted
      exact Nat.sub_eq_zero_iff_le.mp counted
    · rw [List.count_eq_zero.mpr member]
      exact Nat.zero_le 1
  · rintro rfl
    exact List.count_eq_zero.mp
      (reported.selfLoop.symm.trans (nothing _ rfl)) member
  · have counted := (reported.belowLevel neighbor).symm.trans (nothing _ rfl)
    by_contra below
    rw [if_pos ⟨inside neighbor member, below⟩] at counted
    exact List.count_eq_zero.mp counted member

theorem count_of_tidy (reported : links.RunReported id level run violations)
    (tidy : links.Tidy id level run) {violation : Violation}
    (here : violation.run? = some (id, level)) :
    violations.count violation = 0 := by
  obtain ⟨neighbors, free, rfl, real, distinct, others⟩ := tidy
  have list := listed_append_replicate real free
  have once := List.nodup_iff_count_le_one.mp distinct
  have absent : ∀ neighbor, neighbor = id ∨ ¬ links.Reaches level neighbor →
      neighbors.count neighbor = 0 :=
    fun neighbor wrong => List.count_eq_zero.mpr fun member =>
      wrong.elim (others neighbor member).1
        (absurd (others neighbor member).2)
  cases violation with
  | gap =>
      obtain ⟨rfl, rfl⟩ := Prod.mk.inj (Option.some.inj here)
      rw [reported.gap, list, List.drop_left]
      refine if_neg ?_
      rintro ⟨slot, behind, used⟩
      exact used (List.eq_of_mem_replicate behind)
  | selfLoop =>
      obtain ⟨rfl, rfl⟩ := Prod.mk.inj (Option.some.inj here)
      rw [reported.selfLoop, list]
      exact absent _ (.inl rfl)
  | outOfRange _ _ neighbor =>
      obtain ⟨rfl, rfl⟩ := Prod.mk.inj (Option.some.inj here)
      rw [reported.outOfRange, list, ite_eq_right_iff]
      exact fun outside => absent neighbor
        (.inr fun reached => Nat.not_lt.mpr outside reached.lt_size)
  | duplicate _ _ neighbor =>
      obtain ⟨rfl, rfl⟩ := Prod.mk.inj (Option.some.inj here)
      rw [reported.duplicate, list, ite_eq_right_iff]
      exact fun _ => Nat.sub_eq_zero_of_le (once neighbor)
  | belowLevel _ _ neighbor =>
      obtain ⟨rfl, rfl⟩ := Prod.mk.inj (Option.some.inj here)
      rw [reported.belowLevel, list, ite_eq_right_iff]
      exact fun below => absent neighbor (.inr below.2)
  | blockSize | entryLevel => cases here

/-- The audit finds nothing exactly in a tidy run. -/
theorem clean_iff (reported : links.RunReported id level run violations) :
    (∀ violation ∈ violations, violation.run? ≠ some (id, level)) ↔
      links.Tidy id level run := by
  constructor
  · intro clean
    exact reported.tidy fun violation here =>
      List.count_eq_zero.mpr fun found => clean violation found here
  · intro tidy violation found here
    exact List.count_eq_zero.mp (reported.count_of_tidy tidy here) found

end RunReported

end Links

end SmallWorld
