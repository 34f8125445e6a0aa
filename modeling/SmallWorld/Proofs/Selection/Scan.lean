import SmallWorld.Proofs.FiniteDistance
import SmallWorld.Proofs.Selection

/-!
# Selection as a cut

A selection ends as soon as it is full.  A *scan* goes through the same
candidates without an end, and parts them into diverse ones and those that a
diverse one before them shadows.  Every selection is the start of what the
scan finds, whatever its capacity (`Cloud.selects_of_measuresAll`).
-/

namespace SmallWorld

/-- The candidates that have been found diverse, and those that have not. -/
structure Scan where
  diverse : List Hit
  shadowed : List Hit
  deriving DecidableEq

namespace Scan

def start : Scan where
  diverse := []
  shadowed := []

/-- The candidates of which a selection takes the first ones. -/
def pool (scan : Scan) (backfill : Bool) : List Hit :=
  if backfill then scan.diverse ++ scan.shadowed else scan.diverse

@[simp]
theorem pool_false (scan : Scan) : scan.pool false = scan.diverse :=
  rfl

@[simp]
theorem pool_true (scan : Scan) :
    scan.pool true = scan.diverse ++ scan.shadowed :=
  rfl

theorem take_pool (scan : Scan) {chosen : List Hit}
    (first : chosen <+: scan.diverse) (backfill : Bool) :
    (scan.pool backfill).take chosen.length = chosen := by
  have pooled : chosen <+: scan.pool backfill := by
    cases backfill with
    | false => exact first
    | true => exact first.trans (List.prefix_append _ _)
  exact (List.prefix_iff_eq_take.mp pooled).symm

end Scan

namespace Cloud

/-- Scan further candidates.  One is diverse if no diverse candidate before it
is strictly nearer to it than its own distance.  The owner is left out. -/
def scanFrom (cloud : Cloud) (owner : PointId) (scan : Scan) :
    (candidates : List Hit) → Except Fault Scan
  | [] => .ok scan
  | candidate :: rest =>
      if candidate.id = owner then
        cloud.scanFrom owner scan rest
      else do
        let diverse ← cloud.isDiverse candidate (scan.diverse.map Hit.id)
        if diverse then
          cloud.scanFrom owner
            { scan with diverse := scan.diverse ++ [candidate] } rest
        else
          cloud.scanFrom owner
            { scan with shadowed := scan.shadowed ++ [candidate] } rest

/-- Part all candidates other than the owner into diverse and shadowed ones. -/
def scan (cloud : Cloud) (owner : PointId) (candidates : List Hit) :
    Except Fault Scan :=
  cloud.scanFrom owner Scan.start candidates

/-- Whether each of some hits has a finite distance to those before it. -/
def MeasuresAll (cloud : Cloud) (hits : List Hit) : Prop :=
  hits.Pairwise fun earlier later =>
    (cloud.distanceBetween later.id earlier.id).isOk = true

/-- Whether a candidate is not nearer to an earlier one than its own
distance. -/
def SetsApart (cloud : Cloud) (earlier later : Hit) : Prop :=
  ∃ distance, cloud.distanceBetween later.id earlier.id = .ok distance ∧
    later.distance ≤ distance

/-- A scan finds a candidate diverse if no diverse one before it is strictly
nearer to it than its own distance, and shadowed otherwise. -/
def Classifies (cloud : Cloud) (owner : PointId) (before : List Hit)
    (candidate : Hit) : Prop :=
  ∃ diverse shadowed, cloud.scan owner before = .ok ⟨diverse, shadowed⟩ ∧
    ((∀ earlier ∈ diverse, cloud.SetsApart earlier candidate) ∧
        cloud.scan owner (before ++ [candidate]) =
          .ok ⟨diverse ++ [candidate], shadowed⟩ ∨
      (∃ earlier ∈ diverse, ¬ cloud.SetsApart earlier candidate) ∧
        cloud.scan owner (before ++ [candidate]) =
          .ok ⟨diverse, shadowed ++ [candidate]⟩)

/-- Whether a scan that has chosen some neighbours passes a candidate over. -/
def PassesOver (cloud : Cloud) (owner : PointId) (candidates chosen : List Hit)
    (candidate : Hit) : Prop :=
  ∃ before after shadowed, candidates = before ++ candidate :: after ∧
    cloud.scan owner before = .ok ⟨chosen, shadowed⟩ ∧
    cloud.scan owner (before ++ [candidate]) =
      .ok ⟨chosen, shadowed ++ [candidate]⟩

/-- What is selected from candidates that have been scanned, when there are
`capacity` places. -/
structure Selects (cloud : Cloud) (owner : PointId) (candidates : List Hit)
    (scan : Scan) (capacity : Nat) : Prop where
  /-- The scan parts all candidates but the owner by the diversity rule. -/
  classifies : ∀ before candidate after,
    candidates = before ++ candidate :: after → candidate.id ≠ owner →
      cloud.Classifies owner before candidate
  /-- Without backfill these are the first diverse candidates. -/
  strict_eq : cloud.chooseNeighbors owner candidates capacity false =
    .ok ((scan.diverse.take capacity).map Hit.id)
  /-- With backfill the shadowed ones follow. -/
  filled_eq : cloud.chooseNeighbors owner candidates capacity true =
    .ok (((scan.diverse ++ scan.shadowed).take capacity).map Hit.id)
  /-- So one selection starts like the other, and like one with more room. -/
  prefix_filled : ∀ strict filled,
    cloud.chooseNeighbors owner candidates capacity false = .ok strict →
    cloud.chooseNeighbors owner candidates capacity true = .ok filled →
      strict <+: filled
  prefix_larger : ∀ larger, capacity ≤ larger → ∀ few many,
    cloud.chooseNeighbors owner candidates capacity false = .ok few →
    cloud.chooseNeighbors owner candidates larger false = .ok many →
      few <+: many
  /-- With backfill no place stays free that could be taken. -/
  filled_length : ∀ filled,
    cloud.chooseNeighbors owner candidates capacity true = .ok filled →
      filled.length = min capacity (candidates.countP (·.id ≠ owner))
  /-- Of two neighbours selected without backfill, the later one is at least
  as far from the earlier one as it is from the owner. -/
  apart : (scan.diverse.take capacity).Pairwise cloud.SetsApart
  /-- A candidate that is passed over before the last one is selected is
  strictly nearer to a selected one than to the owner. -/
  witness : ∀ chosen candidate,
    cloud.PassesOver owner candidates chosen candidate →
    chosen.length < (scan.diverse.take capacity).length →
      ∃ nearer ∈ chosen, nearer ∈ scan.diverse.take capacity ∧
        ∃ distance,
          cloud.distanceBetween candidate.id nearer.id = .ok distance ∧
          ¬ candidate.distance ≤ distance ∧
          (candidate.distance.isNaN = false →
            distance < candidate.distance)

variable {cloud : Cloud} {owner : PointId} {capacity : Nat} {backfill : Bool}
  {candidate : Hit} {candidates rest chosen : List Hit}
  {scan final : Scan}

section Diversity

variable {ids : List PointId}

theorem isDiverse_of_all (all : ∀ id ∈ ids,
    (cloud.distanceBetween candidate.id id).isOk = true) :
    ∃ diverse, cloud.isDiverse candidate ids = .ok diverse := by
  induction ids with
  | nil => exact ⟨true, rfl⟩
  | cons id rest inductionHypothesis =>
      obtain ⟨diverse, later⟩ := inductionHypothesis
        (fun other member => all other (List.mem_cons_of_mem _ member))
      have here := all id List.mem_cons_self
      rw [isDiverse]
      cases measured : cloud.distanceBetween candidate.id id with
      | error fault =>
          rw [measured] at here
          cases here
      | ok distance =>
          rw [ok_bind]
          split
          · exact ⟨diverse, later⟩
          · exact ⟨false, rfl⟩

/-- A diverse candidate is not nearer to any chosen neighbour than its own
distance. -/
theorem setsApart_of_isDiverse
    (diverse : cloud.isDiverse candidate (chosen.map Hit.id) = .ok true) :
    ∀ earlier ∈ chosen, cloud.SetsApart earlier candidate := by
  induction chosen with
  | nil => exact nofun
  | cons first rest inductionHypothesis =>
      rw [List.map_cons, isDiverse, bind_eq_ok_iff] at diverse
      obtain ⟨distance, measured, decided⟩ := diverse
      split at decided
      · next far =>
          exact List.forall_mem_cons.mpr
            ⟨⟨distance, measured, far⟩, inductionHypothesis decided⟩
      · cases decided

/-- A candidate that is not diverse is too near to a chosen neighbour. -/
theorem exists_of_not_isDiverse
    (shadowed : cloud.isDiverse candidate (chosen.map Hit.id) = .ok false) :
    ∃ earlier ∈ chosen, ∃ distance,
      cloud.distanceBetween candidate.id earlier.id = .ok distance ∧
        ¬ candidate.distance ≤ distance := by
  induction chosen with
  | nil => cases shadowed
  | cons first rest inductionHypothesis =>
      rw [List.map_cons, isDiverse, bind_eq_ok_iff] at shadowed
      obtain ⟨distance, measured, decided⟩ := shadowed
      split at decided
      · obtain ⟨earlier, member, near⟩ := inductionHypothesis decided
        exact ⟨earlier, List.mem_cons_of_mem _ member, near⟩
      · next near =>
          exact ⟨first, List.mem_cons_self, distance, measured, near⟩

theorem exists_not_setsApart
    (shadowed : cloud.isDiverse candidate (chosen.map Hit.id) = .ok false) :
    ∃ earlier ∈ chosen, ¬ cloud.SetsApart earlier candidate := by
  obtain ⟨earlier, member, distance, measured, near⟩ :=
    exists_of_not_isDiverse shadowed
  refine ⟨earlier, member, ?_⟩
  rintro ⟨distance', measured', far⟩
  cases measured.symm.trans measured'
  exact near far

end Diversity

section Steps

theorem scanFrom_cons_self (same : candidate.id = owner) :
    cloud.scanFrom owner scan (candidate :: rest) =
      cloud.scanFrom owner scan rest := by
  rw [scanFrom, if_pos same]

theorem scanFrom_cons_diverse (other : candidate.id ≠ owner)
    (diverse : cloud.isDiverse candidate (scan.diverse.map Hit.id) =
      .ok true) :
    cloud.scanFrom owner scan (candidate :: rest) =
      cloud.scanFrom owner
        { scan with diverse := scan.diverse ++ [candidate] } rest := by
  rw [scanFrom, if_neg other, diverse, ok_bind, if_pos rfl]

theorem scanFrom_cons_shadowed (other : candidate.id ≠ owner)
    (shadowed : cloud.isDiverse candidate (scan.diverse.map Hit.id) =
      .ok false) :
    cloud.scanFrom owner scan (candidate :: rest) =
      cloud.scanFrom owner
        { scan with shadowed := scan.shadowed ++ [candidate] } rest := by
  rw [scanFrom, if_neg other, shadowed, ok_bind, if_neg Bool.false_ne_true]

theorem scanFrom_cons_cases
    (scanned : cloud.scanFrom owner scan (candidate :: rest) = .ok final) :
    (candidate.id = owner ∧ cloud.scanFrom owner scan rest = .ok final) ∨
    (candidate.id ≠ owner ∧
      cloud.isDiverse candidate (scan.diverse.map Hit.id) = .ok true ∧
      cloud.scanFrom owner
        { scan with diverse := scan.diverse ++ [candidate] } rest =
          .ok final) ∨
    (candidate.id ≠ owner ∧
      cloud.isDiverse candidate (scan.diverse.map Hit.id) = .ok false ∧
      cloud.scanFrom owner
        { scan with shadowed := scan.shadowed ++ [candidate] } rest =
          .ok final) := by
  by_cases same : candidate.id = owner
  · rw [scanFrom_cons_self same] at scanned
    exact Or.inl ⟨same, scanned⟩
  · rw [scanFrom, if_neg same, bind_eq_ok_iff] at scanned
    obtain ⟨diverse, decided, scanned⟩ := scanned
    cases diverse with
    | true => exact Or.inr (Or.inl ⟨same, decided, scanned⟩)
    | false => exact Or.inr (Or.inr ⟨same, decided, scanned⟩)

theorem scanFrom_append (scan : Scan) (before after : List Hit) :
    cloud.scanFrom owner scan (before ++ after) =
      cloud.scanFrom owner scan before >>= fun middle =>
        cloud.scanFrom owner middle after := by
  induction before generalizing scan with
  | nil => rfl
  | cons candidate rest inductionHypothesis =>
      rw [List.cons_append, scanFrom, scanFrom]
      split
      · exact inductionHypothesis scan
      · rw [bind_assoc]
        refine bind_congr fun diverse => ?_
        split
        · exact inductionHypothesis _
        · exact inductionHypothesis _

end Steps

/-- A scan adds candidates behind those that it has, and leaves out none but
the owner. -/
theorem scanFrom_parts
    (scanned : cloud.scanFrom owner scan candidates = .ok final) :
    ∃ diverse shadowed,
      final = ⟨scan.diverse ++ diverse, scan.shadowed ++ shadowed⟩ ∧
      diverse.Sublist candidates ∧ shadowed.Sublist candidates ∧
      (diverse ++ shadowed).Perm (candidates.filter (·.id ≠ owner)) := by
  induction candidates generalizing scan with
  | nil =>
      cases scanned
      exact ⟨[], [], by simp, .slnil, .slnil, by simp⟩
  | cons candidate rest inductionHypothesis =>
      rcases scanFrom_cons_cases scanned with ⟨same, scanned⟩ |
        ⟨other, _, scanned⟩ | ⟨other, _, scanned⟩
      · obtain ⟨diverse, shadowed, rfl, first, second, perm⟩ :=
          inductionHypothesis scanned
        refine ⟨diverse, shadowed, rfl, first.cons _, second.cons _, ?_⟩
        rwa [List.filter_cons_of_neg (by simpa using same)]
      · obtain ⟨diverse, shadowed, rfl, first, second, perm⟩ :=
          inductionHypothesis scanned
        refine ⟨candidate :: diverse, shadowed, ?_, first.cons_cons _,
          second.cons _, ?_⟩
        · simp
        · rw [List.filter_cons_of_pos (by simpa using other)]
          exact perm.cons candidate
      · obtain ⟨diverse, shadowed, rfl, first, second, perm⟩ :=
          inductionHypothesis scanned
        refine ⟨diverse, candidate :: shadowed, ?_, first.cons _,
          second.cons_cons _, ?_⟩
        · simp
        · rw [List.filter_cons_of_pos (by simpa using other)]
          exact List.perm_middle.trans (perm.cons candidate)

/-- Without the owner among them, all candidates are parted. -/
theorem scan_parts (others : ∀ hit ∈ candidates, hit.id ≠ owner)
    (scanned : cloud.scan owner candidates = .ok scan) :
    scan.diverse.Sublist candidates ∧ scan.shadowed.Sublist candidates ∧
    (scan.diverse ++ scan.shadowed).Perm candidates := by
  obtain ⟨diverse, shadowed, rfl, first, second, perm⟩ :=
    scanFrom_parts scanned
  rw [List.filter_eq_self.mpr (by simpa using others)] at perm
  exact ⟨first, second, perm⟩

theorem prefix_scanFrom
    (scanned : cloud.scanFrom owner scan candidates = .ok final) :
    scan.diverse <+: final.diverse := by
  obtain ⟨diverse, _, rfl, _⟩ := scanFrom_parts scanned
  exact List.prefix_append _ _

/-- A scan comes to its end if all distances exist that it may ask for. -/
theorem exists_scanFrom
    (chosen : ∀ neighbor ∈ scan.diverse, ∀ candidate ∈ candidates,
      candidate.id ≠ owner →
        (cloud.distanceBetween candidate.id neighbor.id).isOk = true)
    (measures : cloud.MeasuresAll (candidates.filter (·.id ≠ owner))) :
    ∃ final, cloud.scanFrom owner scan candidates = .ok final := by
  induction candidates generalizing scan with
  | nil => exact ⟨scan, rfl⟩
  | cons candidate rest inductionHypothesis =>
      have later : ∀ neighbor ∈ scan.diverse, ∀ candidate ∈ rest,
          candidate.id ≠ owner →
            (cloud.distanceBetween candidate.id neighbor.id).isOk = true :=
        fun neighbor member other listed =>
          chosen neighbor member other (List.mem_cons_of_mem _ listed)
      by_cases same : candidate.id = owner
      · rw [List.filter_cons_of_neg (by simpa using same)] at measures
        rw [scanFrom_cons_self same]
        exact inductionHypothesis later measures
      · rw [List.filter_cons_of_pos (by simpa using same)] at measures
        obtain ⟨first, others⟩ := List.pairwise_cons.mp measures
        obtain ⟨diverse, decided⟩ : ∃ diverse,
            cloud.isDiverse candidate (scan.diverse.map Hit.id) =
              .ok diverse := by
          refine isDiverse_of_all fun id member => ?_
          obtain ⟨neighbor, listed, rfl⟩ := List.mem_map.mp member
          exact chosen neighbor listed candidate List.mem_cons_self same
        cases diverse with
        | true =>
            rw [scanFrom_cons_diverse same decided]
            refine inductionHypothesis ?_ others
            intro neighbor member other listed different
            rcases List.mem_append.mp member with old | new
            · exact later neighbor old other listed different
            · rw [List.mem_singleton.mp new]
              exact first other (List.mem_filter.mpr
                ⟨listed, by simpa using different⟩)
        | false =>
            rw [scanFrom_cons_shadowed same decided]
            exact inductionHypothesis later others

/-- The diverse candidates are diverse with respect to each other. -/
theorem pairwise_diverse
    (scanned : cloud.scanFrom owner scan candidates = .ok final)
    (sofar : scan.diverse.Pairwise cloud.SetsApart) :
    final.diverse.Pairwise cloud.SetsApart := by
  induction candidates generalizing scan with
  | nil =>
      cases scanned
      exact sofar
  | cons candidate rest inductionHypothesis =>
      rcases scanFrom_cons_cases scanned with ⟨_, scanned⟩ |
        ⟨_, diverse, scanned⟩ | ⟨_, _, scanned⟩
      · exact inductionHypothesis scanned sofar
      · refine inductionHypothesis scanned (List.pairwise_append.mpr
          ⟨sofar, List.pairwise_singleton _ _, ?_⟩)
        intro neighbor member last isLast
        rw [List.mem_singleton.mp isLast]
        exact setsApart_of_isDiverse diverse neighbor member
      · exact inductionHypothesis scanned sofar

def chooseAfter (cloud : Cloud) (owner : PointId) (capacity : Nat)
    (backfill : Bool) (scan : Scan) (candidates : List Hit) :
    Except Fault (List PointId) :=
  cloud.chooseFrom owner capacity backfill (scan.diverse.map Hit.id)
    (scan.shadowed.map Hit.id) candidates

theorem chooseAfter_nil (room : scan.diverse.length ≤ capacity) :
    cloud.chooseAfter owner capacity backfill scan [] =
      .ok (((scan.pool backfill).take capacity).map Hit.id) := by
  cases backfill with
  | false =>
      rw [Scan.pool_false, List.take_of_length_le room]
      rfl
  | true =>
      simp only [chooseAfter, chooseFrom, if_true, placesLeft, List.length_map,
        Nat.not_lt.mpr room, if_false, ok_bind, Scan.pool_true,
        List.take_append, List.take_of_length_le room, List.map_append,
        List.map_take]
      rfl

theorem chooseAfter_cons_self (same : candidate.id = owner) :
    cloud.chooseAfter owner capacity backfill scan (candidate :: rest) =
      cloud.chooseAfter owner capacity backfill scan rest := by
  rw [chooseAfter, chooseFrom, if_pos same, chooseAfter]

theorem chooseAfter_cons (other : candidate.id ≠ owner) :
    cloud.chooseAfter owner capacity backfill scan (candidate :: rest) =
      cloud.isDiverse candidate (scan.diverse.map Hit.id) >>= fun diverse =>
        if diverse then
          if capacity ≤ scan.diverse.length + 1 then
            .ok ((scan.diverse ++ [candidate]).map Hit.id)
          else
            cloud.chooseAfter owner capacity backfill
              { scan with diverse := scan.diverse ++ [candidate] } rest
        else
          cloud.chooseAfter owner capacity backfill
            { scan with shadowed := scan.shadowed ++ [candidate] } rest := by
  rw [chooseAfter, chooseFrom, if_neg other]
  simp only [chooseAfter, List.map_append, List.map_cons, List.map_nil,
    List.length_append, List.length_map, List.length_singleton]

/-- A selection takes the first of those that a scan finds. -/
theorem chooseAfter_eq_take
    (scanned : cloud.scanFrom owner scan candidates = .ok final)
    (room : scan.diverse.length < capacity) :
    cloud.chooseAfter owner capacity backfill scan candidates =
      .ok (((final.pool backfill).take capacity).map Hit.id) := by
  induction candidates generalizing scan with
  | nil =>
      cases scanned
      exact chooseAfter_nil room.le
  | cons candidate rest inductionHypothesis =>
      rcases scanFrom_cons_cases scanned with ⟨same, scanned⟩ |
        ⟨other, diverse, scanned⟩ | ⟨other, shadowed, scanned⟩
      · rw [chooseAfter_cons_self same]
        exact inductionHypothesis scanned room
      · rw [chooseAfter_cons other, diverse, ok_bind, if_pos rfl]
        have length : (scan.diverse ++ [candidate]).length =
          scan.diverse.length + 1 := List.length_append
        split
        · next full =>
            -- The run is full: the scan only adds behind what is taken.
            have filled : scan.diverse.length + 1 = capacity :=
              Nat.le_antisymm room full
            have taken := final.take_pool (prefix_scanFrom scanned) backfill
            dsimp only at taken
            rw [length, filled] at taken
            rw [taken]
        · next free =>
            exact inductionHypothesis scanned
              (length.trans_lt (Nat.not_le.mp free))
      · rw [chooseAfter_cons other, shadowed, ok_bind,
          if_neg Bool.false_ne_true]
        exact inductionHypothesis scanned room

theorem chooseNeighbors_eq_take
    (scanned : cloud.scan owner candidates = .ok scan) :
    cloud.chooseNeighbors owner candidates capacity backfill =
      .ok (((scan.pool backfill).take capacity).map Hit.id) := by
  rw [chooseNeighbors]
  split
  · next none => simp [none]
  · next some => exact chooseAfter_eq_take scanned (Nat.pos_of_ne_zero some)

theorem classifies_of_scan {before after : List Hit}
    (scanned : cloud.scan owner (before ++ candidate :: after) = .ok scan)
    (other : candidate.id ≠ owner) :
    cloud.Classifies owner before candidate := by
  unfold Cloud.Classifies
  unfold Cloud.scan at scanned ⊢
  rw [scanFrom_append, bind_eq_ok_iff] at scanned
  obtain ⟨⟨diverse, shadowed⟩, earlier, scanned⟩ := scanned
  refine ⟨diverse, shadowed, earlier, ?_⟩
  rw [scanFrom_append, earlier, ok_bind]
  rcases scanFrom_cons_cases scanned with ⟨same, _⟩ | ⟨_, decided, _⟩ |
    ⟨_, decided, _⟩
  · exact absurd same other
  · rw [scanFrom_cons_diverse other decided]
    exact Or.inl ⟨setsApart_of_isDiverse decided, rfl⟩
  · rw [scanFrom_cons_shadowed other decided]
    exact Or.inr ⟨exists_not_setsApart decided, rfl⟩

/-- A candidate that is passed over is too near to a chosen one. -/
theorem PassesOver.exists_nearer
    (passed : cloud.PassesOver owner candidates chosen candidate) :
    ∃ neighbor ∈ chosen, ∃ distance,
      cloud.distanceBetween candidate.id neighbor.id = .ok distance ∧
        ¬ candidate.distance ≤ distance := by
  obtain ⟨before, after, shadowed, _, earlier, later⟩ := passed
  unfold Cloud.scan at earlier later
  rw [scanFrom_append, earlier, ok_bind] at later
  rcases scanFrom_cons_cases later with ⟨_, ended⟩ | ⟨_, _, ended⟩ |
    ⟨_, decided, _⟩
  · simp [scanFrom] at ended
  · simp [scanFrom] at ended
  · exact exists_of_not_isDiverse decided

theorem PassesOver.prefix_diverse
    (passed : cloud.PassesOver owner candidates chosen candidate)
    (scanned : cloud.scan owner candidates = .ok scan) :
    chosen <+: scan.diverse := by
  obtain ⟨before, after, shadowed, rfl, earlier, _⟩ := passed
  unfold Cloud.scan at earlier scanned
  rw [scanFrom_append, earlier, ok_bind] at scanned
  exact prefix_scanFrom scanned

theorem selects_of_scan
    (scanned : cloud.scan owner candidates = .ok scan) (capacity : Nat) :
    cloud.Selects owner candidates scan capacity where
  classifies before candidate after split other :=
    classifies_of_scan (split ▸ scanned) other
  strict_eq := chooseNeighbors_eq_take scanned
  filled_eq := chooseNeighbors_eq_take scanned
  prefix_filled strict filled strictEq filledEq := by
    rw [chooseNeighbors_eq_take scanned] at strictEq filledEq
    cases strictEq
    cases filledEq
    exact ((List.prefix_append scan.diverse scan.shadowed).take capacity).map
      Hit.id
  prefix_larger larger more few many fewEq manyEq := by
    rw [chooseNeighbors_eq_take scanned] at fewEq manyEq
    cases fewEq
    cases manyEq
    exact (List.take_prefix_take_left more).map Hit.id
  filled_length filled filledEq := by
    rw [chooseNeighbors_eq_take scanned] at filledEq
    cases filledEq
    obtain ⟨diverse, shadowed, rfl, _, _, perm⟩ := scanFrom_parts scanned
    rw [List.length_map, List.length_take, List.countP_eq_length_filter,
      ← perm.length_eq]
    rfl
  apart := (pairwise_diverse scanned .nil).sublist (List.take_sublist _ _)
  witness chosen candidate passed before := by
    obtain ⟨nearer, member, distance, measured, near⟩ := passed.exists_nearer
    have first : chosen <+: scan.diverse.take capacity :=
      List.prefix_of_prefix_length_le (passed.prefix_diverse scanned)
        (List.take_prefix _ _) before.le
    exact ⟨nearer, member, first.subset member, distance, measured, near,
      fun number => Scalar.lt_of_not_le number
        (isNaN_of_distanceBetween measured) near⟩

theorem exists_scan (measures : cloud.MeasuresAll
    (candidates.filter (·.id ≠ owner))) :
    ∃ scan, cloud.scan owner candidates = .ok scan :=
  exists_scanFrom
    (show ∀ neighbor ∈ Scan.start.diverse, _ from nofun) measures

/-- If each candidate has a finite distance to those before it, the scan of
the candidates comes to its end, and every selection from them is the start of
what it finds. -/
theorem selects_of_measuresAll
    (measures : cloud.MeasuresAll (candidates.filter (·.id ≠ owner))) :
    ∃ scan, cloud.scan owner candidates = .ok scan ∧
      ∀ capacity, cloud.Selects owner candidates scan capacity := by
  obtain ⟨scan, scanned⟩ := exists_scan measures
  exact ⟨scan, scanned, selects_of_scan scanned⟩

/-- The points 0, 4, -4, 8 and -8. -/
def axis : Cloud where
  dimension := 1
  vectors :=
    #[[.ofBits 0x00000000], [.ofBits 0x40800000], [.ofBits 0xc0800000],
      [.ofBits 0x41000000], [.ofBits 0xc1000000]]

/-- The points of the axis with their distances to the first one, which is
among them.  They are not in order. -/
def axisHits : List Hit :=
  [⟨.ofBits 0x40800000, 1⟩, ⟨.ofBits 0x41000000, 3⟩, ⟨.ofBits 0x00000000, 0⟩,
    ⟨.ofBits 0x41000000, 4⟩, ⟨.ofBits 0x40800000, 2⟩]

example : (axis.scan 0 axisHits).map (fun scan =>
    (scan.diverse.map Hit.id, scan.shadowed.map Hit.id)) =
      .ok ([1, 4, 2], [3]) := by
  decide +kernel

theorem axis_selects :
    axis.MeasuresAll (axisHits.filter (·.id ≠ 0)) ∧
    ∃ scan, axis.scan 0 axisHits = .ok scan ∧
      ∀ capacity, axis.Selects 0 axisHits scan capacity := by
  have measures : axis.MeasuresAll (axisHits.filter (·.id ≠ 0)) := by
    unfold MeasuresAll
    decide +kernel
  exact ⟨measures, selects_of_measuresAll measures⟩

end Cloud

end SmallWorld
