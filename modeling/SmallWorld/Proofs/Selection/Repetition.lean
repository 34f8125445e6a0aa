import SmallWorld.Proofs.Hit
import SmallWorld.Proofs.Selection.Scan

/-!
# Selecting from a selection

A shadowed candidate is rejected for the sake of diverse ones, which are all
selected if any shadowed one is.  So a scan finds the same when some shadowed
candidates are missing (`Cloud.exists_thinned`), and a selection from what has
been selected changes nothing (`Cloud.chooseNeighbors_again`).
-/

namespace SmallWorld

/-- The hits with the given numbers, in the order of the numbers. -/
def Hit.recalled (hits : List Hit) (ids : List PointId) : List Hit :=
  ids.filterMap fun id => hits.find? fun hit => hit.id = id

theorem Hit.recalled_ids {hits some : List Hit}
    (distinct : (hits.map Hit.id).Nodup) (within : some ⊆ hits) :
    Hit.recalled hits (some.map Hit.id) = some := by
  have found : ∀ hit ∈ some,
      (hits.find? fun other => other.id = hit.id) = .some hit := by
    intro hit member
    obtain ⟨other, first⟩ : ∃ other,
        (hits.find? fun other => other.id = hit.id) = .some other :=
      Option.isSome_iff_exists.mp
        (List.find?_isSome.mpr ⟨hit, within member, decide_eq_true rfl⟩)
    have same : other.id = hit.id := by simpa using List.find?_some first
    rw [first, List.inj_on_of_nodup_map distinct
      (List.mem_of_find?_eq_some first) (within member) same]
  rw [recalled, List.filterMap_map]
  exact (List.filterMap_congr found).trans (List.filterMap_some)

namespace Scan

/-- With all diverse candidates and some shadowed ones, the same can be
selected as with all shadowed ones. -/
theorem exists_pool_take (scan : Scan) {capacity : Nat}
    (fits : scan.diverse.length ≤ capacity) (backfill : Bool) :
    ∃ few, few.Sublist scan.shadowed ∧
      (scan.pool backfill).take capacity = scan.diverse ++ few ∧
      ((Scan.mk scan.diverse few).pool backfill).take capacity =
        scan.diverse ++ few := by
  cases backfill with
  | false =>
      refine ⟨[], List.nil_sublist _, ?_, ?_⟩
      · simp [fits]
      · simp [fits]
  | true =>
      refine ⟨scan.shadowed.take (capacity - scan.diverse.length),
        List.take_sublist _ _, ?_, ?_⟩
      · rw [pool_true, List.take_append, List.take_of_length_le fits]
      · rw [pool_true, List.take_append, List.take_of_length_le fits,
          List.take_take, Nat.min_self]

end Scan

namespace Cloud

variable {cloud : Cloud} {owner : PointId} {capacity : Nat} {backfill : Bool}
  {candidates : List Hit} {kept : List PointId} {scan final : Scan}

/-- A selection that succeeds has scanned the candidates up to the one that
fills it. -/
theorem exists_scanFrom_of_chooseAfter
    (selected : cloud.chooseAfter owner capacity backfill scan candidates =
      .ok kept)
    (room : scan.diverse.length < capacity) :
    ∃ seen final, seen <+: candidates ∧
      cloud.scanFrom owner scan seen = .ok final ∧
      final.diverse.length ≤ capacity ∧
      kept = ((final.pool backfill).take capacity).map Hit.id := by
  induction candidates generalizing scan with
  | nil =>
      rw [chooseAfter_nil room.le] at selected
      exact ⟨[], scan, List.prefix_refl _, rfl, room.le,
        (Except.ok.inj selected).symm⟩
  | cons candidate rest inductionHypothesis =>
      by_cases same : candidate.id = owner
      · rw [chooseAfter_cons_self same] at selected
        obtain ⟨seen, final, first, scanned, ended⟩ :=
          inductionHypothesis selected room
        exact ⟨candidate :: seen, final, (List.prefix_cons_inj _).mpr first,
          (scanFrom_cons_self same).trans scanned, ended⟩
      rw [chooseAfter_cons same, bind_eq_ok_iff] at selected
      obtain ⟨diverse, decided, selected⟩ := selected
      cases diverse with
      | true =>
          have length : (scan.diverse ++ [candidate]).length =
            scan.diverse.length + 1 := List.length_append
          rw [if_pos rfl] at selected
          split at selected
          · next full =>
              have filled : scan.diverse.length + 1 = capacity :=
                Nat.le_antisymm room full
              have taken := Scan.take_pool
                ⟨scan.diverse ++ [candidate], scan.shadowed⟩
                (List.prefix_refl _) backfill
              rw [length, filled] at taken
              refine ⟨[candidate], _, List.prefix_append [candidate] rest,
                scanFrom_cons_diverse same decided,
                (length.trans filled).le, ?_⟩
              rw [taken]
              exact (Except.ok.inj selected).symm
          · next free =>
              obtain ⟨seen, final, first, scanned, ended⟩ :=
                inductionHypothesis selected
                  (length.trans_lt (Nat.not_le.mp free))
              exact ⟨candidate :: seen, final,
                (List.prefix_cons_inj _).mpr first,
                (scanFrom_cons_diverse same decided).trans scanned, ended⟩
      | false =>
          rw [if_neg Bool.false_ne_true] at selected
          obtain ⟨seen, final, first, scanned, ended⟩ :=
            inductionHypothesis selected room
          exact ⟨candidate :: seen, final,
            (List.prefix_cons_inj _).mpr first,
            (scanFrom_cons_shadowed same decided).trans scanned, ended⟩

/-- Some of the shadowed candidates can be left out: a scan of the others
finds the same diverse ones, and shadows those that are left. -/
theorem exists_thinned
    (scanned : cloud.scanFrom owner scan candidates = .ok final)
    {all few : List Hit} (added : final.shadowed = scan.shadowed ++ all)
    (fewer : few.Sublist all) (known : List Hit) :
    ∃ thinned, thinned.Sublist candidates ∧
      (∀ hit ∈ thinned, hit.id ≠ owner) ∧
      cloud.scanFrom owner ⟨scan.diverse, known⟩ thinned =
        .ok ⟨final.diverse, known ++ few⟩ := by
  induction candidates generalizing scan all few known with
  | nil =>
      cases scanned
      obtain rfl : all = [] := List.self_eq_append_right.mp added
      obtain rfl : few = [] := List.sublist_nil.mp fewer
      exact ⟨[], .slnil, nofun, by simp [scanFrom]⟩
  | cons candidate rest inductionHypothesis =>
      rcases scanFrom_cons_cases scanned with ⟨_, scanned⟩ |
        ⟨other, diverse, scanned⟩ | ⟨other, shadowed, scanned⟩
      · obtain ⟨thinned, part, others, ended⟩ :=
          inductionHypothesis scanned added fewer known
        exact ⟨thinned, part.cons _, others, ended⟩
      · obtain ⟨thinned, part, others, ended⟩ :=
          inductionHypothesis scanned added fewer known
        have step :
            cloud.scanFrom owner ⟨scan.diverse, known⟩
                (candidate :: thinned) =
              cloud.scanFrom owner
                ⟨scan.diverse ++ [candidate], known⟩ thinned :=
          scanFrom_cons_diverse other diverse
        exact ⟨candidate :: thinned, part.cons_cons _,
          List.forall_mem_cons.mpr ⟨other, others⟩, step.trans ended⟩
      · obtain ⟨_, later, rfl, _⟩ := scanFrom_parts scanned
        obtain rfl : candidate :: later = all := by simpa using added
        cases fewer with
        | cons _ fewer =>
            obtain ⟨thinned, part, others, ended⟩ :=
              inductionHypothesis scanned rfl fewer known
            exact ⟨thinned, part.cons _, others, ended⟩
        | cons_cons _ fewer =>
            obtain ⟨thinned, part, others, ended⟩ :=
              inductionHypothesis scanned rfl fewer (known ++ [candidate])
            rw [List.append_assoc known] at ended
            have step :
                cloud.scanFrom owner ⟨scan.diverse, known⟩
                    (candidate :: thinned) =
                  cloud.scanFrom owner
                    ⟨scan.diverse, known ++ [candidate]⟩ thinned :=
              scanFrom_cons_shadowed other shadowed
            exact ⟨candidate :: thinned, part.cons_cons _,
              List.forall_mem_cons.mpr ⟨other, others⟩, step.trans ended⟩

/-- Selecting once more from what has been selected, with the distances that
it had and in order of these, gives the same neighbours in the same order. -/
theorem chooseNeighbors_again (ordered : Hit.Ordered candidates)
    (distinct : (candidates.map Hit.id).Nodup) :
    (∀ kept,
      cloud.chooseNeighbors owner candidates capacity backfill = .ok kept →
      cloud.chooseNeighbors owner
          (Hit.sort (Hit.recalled candidates kept)) capacity backfill =
        .ok kept) ∧
    (cloud.MeasuresAll (candidates.filter (·.id ≠ owner)) →
      ∃ kept, cloud.chooseNeighbors owner candidates capacity backfill =
        .ok kept) := by
  constructor
  · intro kept selected
    by_cases none : capacity = 0
    · rw [chooseNeighbors, if_pos none] at selected ⊢
      exact selected
    rw [chooseNeighbors, if_neg none] at selected
    obtain ⟨seen, scan, first, scanned, fits, rfl⟩ :=
      exists_scanFrom_of_chooseAfter (show cloud.chooseAfter owner capacity
        backfill Scan.start candidates = .ok kept from selected)
        (Nat.pos_of_ne_zero none)
    obtain ⟨few, fewer, taken, takenAgain⟩ :=
      scan.exists_pool_take fits backfill
    obtain ⟨thinned, part, others, again⟩ :=
      exists_thinned scanned (List.nil_append _).symm fewer []
    have within : thinned.Sublist candidates := part.trans first.sublist
    have picks : (scan.diverse ++ few).Perm thinned :=
      (scan_parts others again).2.2
    have recalled :
        Hit.recalled candidates ((scan.diverse ++ few).map Hit.id) =
          scan.diverse ++ few :=
      Hit.recalled_ids distinct
        (List.Subset.trans picks.subset within.subset)
    have sorted : Hit.sort (scan.diverse ++ few) = thinned :=
      (Hit.sort_eq_of_perm picks).trans
        (Hit.sort_of_ordered (ordered.sublist within))
    rw [taken, recalled, sorted, chooseNeighbors_eq_take again]
    exact congrArg (fun hits => Except.ok (hits.map Hit.id)) takenAgain
  · intro measures
    obtain ⟨scan, scanned⟩ := exists_scan measures
    exact ⟨_, chooseNeighbors_eq_take scanned⟩

/-- Points of the axis, in order of their distances to the first one. -/
def axisRow : List Hit :=
  [⟨.ofBits 0x00000000, 0⟩, ⟨.ofBits 0x40800000, 1⟩, ⟨.ofBits 0x41000000, 3⟩,
    ⟨.ofBits 0x41000000, 4⟩]

/-- Point 3 is shadowed by point 1, so what is selected is out of order, and
is selected so again. -/
theorem axisRow_again :
    Hit.Ordered axisRow ∧ (axisRow.map Hit.id).Nodup ∧
    axis.MeasuresAll (axisRow.filter (·.id ≠ 0)) ∧
    axis.chooseNeighbors 0 axisRow 3 true = .ok [1, 4, 3] ∧
    axis.chooseNeighbors 0
        (Hit.sort (Hit.recalled axisRow [1, 4, 3])) 3 true =
      .ok [1, 4, 3] := by
  have ordered : Hit.Ordered axisRow := by
    unfold Hit.Ordered
    decide +kernel
  have distinct : (axisRow.map Hit.id).Nodup := by decide
  have measures : axis.MeasuresAll (axisRow.filter (·.id ≠ 0)) := by
    unfold MeasuresAll
    decide +kernel
  obtain ⟨again, exists_kept⟩ := chooseNeighbors_again ordered distinct
  obtain ⟨kept, selected⟩ := exists_kept measures
  have chosen : axis.chooseNeighbors 0 axisRow 3 true = .ok [1, 4, 3] := by
    decide +kernel
  cases selected.symm.trans chosen
  exact ⟨ordered, distinct, measures, selected, again _ selected⟩

end Cloud

end SmallWorld
