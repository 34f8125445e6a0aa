import SmallWorld.Proofs.Hit
import SmallWorld.Proofs.Selection.Scan

/-!
# What a full selection drops

When there is one candidate more than there are places, a selection with
backfill drops one candidate: the last of the shadowed ones, and the last of
all if none is shadowed (`Cloud.exists_dropped`).
-/

namespace SmallWorld

namespace Hit

/-- A hit is one of some hits, and none of them comes after it. -/
def IsLast (hits : List Hit) (last : Hit) : Prop :=
  last ∈ hits ∧ ∀ other ∈ hits, other.le last = true

theorem Ordered.isLast {hits : List Hit} (ordered : Ordered hits)
    {last : Hit} (ends : hits.getLast? = some last) : IsLast hits last :=
  ⟨List.mem_of_getLast? ends, fun _ listed => le_getLast ordered ends listed⟩

end Hit

/-- The last of some values and those before it are all of them. -/
theorem getLast_cons_take_perm {α : Type} {values : List α} {last : α}
    {count : Nat} (ends : values.getLast? = some last)
    (length : values.length = count + 1) :
    (last :: values.take count).Perm values := by
  obtain ⟨before, rfl⟩ := List.getLast?_eq_some_iff.mp ends
  obtain rfl : before.length = count := by simpa using length
  rw [List.take_left]
  exact (List.perm_append_singleton last before).symm

namespace Cloud

/-- Candidates are the given points with their distances from an owner, the
nearest ones first. -/
structure Ranks (cloud : Cloud) (owner : PointId) (ids : List PointId)
    (candidates : List Hit) : Prop where
  ids_perm : (candidates.map Hit.id).Perm ids
  measured : ∀ hit ∈ candidates,
    cloud.distanceBetween owner hit.id = .ok hit.distance
  ordered : Hit.Ordered candidates

variable {cloud : Cloud} {owner : PointId} {ids : List PointId}
  {candidates : List Hit} {scan : Scan} {capacity : Nat}

theorem Ranks.length_eq (ranks : cloud.Ranks owner ids candidates) :
    candidates.length = ids.length := by
  rw [← ranks.ids_perm.length_eq, List.length_map]

theorem Ranks.ne_owner (ranks : cloud.Ranks owner ids candidates)
    (absent : owner ∉ ids) : ∀ hit ∈ candidates, hit.id ≠ owner :=
  fun _ member same =>
    absent (same ▸ ranks.ids_perm.subset (List.mem_map_of_mem member))

section Scanned

variable (others : ∀ hit ∈ candidates, hit.id ≠ owner)
  (scanned : cloud.scan owner candidates = .ok scan)
include others scanned

/-- There is no diverse candidate yet that could be nearer to the first
one. -/
theorem head?_diverse : scan.diverse.head? = candidates.head? := by
  cases candidates with
  | nil =>
      cases scanned
      rfl
  | cons first rest =>
      rcases scanFrom_cons_cases scanned with ⟨same, _⟩ | ⟨_, _, scanned⟩ |
        ⟨_, shadowed, _⟩
      · exact absurd same (others first List.mem_cons_self)
      · obtain ⟨later, found⟩ := prefix_scanFrom scanned
        rw [← found]
        rfl
      · cases shadowed

/-- Of one candidate too many the last shadowed one is dropped, or the last of
all if none is shadowed. -/
theorem exists_dropped (ordered : Hit.Ordered candidates)
    (length : candidates.length = capacity + 1) :
    ∃ dropped,
      Hit.IsLast (if scan.shadowed = [] then candidates else scan.shadowed)
        dropped ∧
      (dropped :: (scan.diverse ++ scan.shadowed).take capacity).Perm
        candidates := by
  obtain ⟨first, second, perm⟩ := scan_parts others scanned
  have counted : (scan.diverse ++ scan.shadowed).length = capacity + 1 :=
    perm.length_eq.trans length
  obtain ⟨dropped, ends⟩ :
      ∃ dropped, (scan.diverse ++ scan.shadowed).getLast? = some dropped :=
    ⟨_, List.getLast?_eq_some_getLast
      (List.ne_nil_of_length_eq_add_one counted)⟩
  refine ⟨dropped, ?_, (getLast_cons_take_perm ends counted).trans perm⟩
  split
  · next none =>
      rw [none, List.append_nil] at perm ends
      obtain rfl : scan.diverse = candidates :=
        first.eq_of_length perm.length_eq
      exact ordered.isLast ends
  · next some =>
      rw [List.getLast?_append_of_ne_nil _ some] at ends
      exact Hit.Ordered.isLast (ordered.sublist second) ends

end Scanned

end Cloud

end SmallWorld
