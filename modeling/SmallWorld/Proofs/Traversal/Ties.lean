import SmallWorld.Proofs.Traversal.Invariant

/-!
# Ties at the edge of a beam

Of the points seen a sweep keeps some that are nearest, so the distances of
the kept hits are determined (`Sound.distances_kept`).  The kept hits themselves
are those that come first by distance and number unless a point at the
distance of the last one has been left out in spite of its lower number
(`Sound.kept_eq_take_iff`).
-/

namespace SmallWorld

namespace Hit

/-- Hits that are listed among others leave a rest, which can be put in
order. -/
theorem exists_rest {kept all : List Hit} (distinct : kept.Nodup)
    (allDistinct : all.Nodup) (subset : kept ⊆ all) :
    ∃ rest, Ordered rest ∧ (kept ++ rest).Perm (sort all) ∧
      ∀ hit ∈ rest, hit ∈ all ∧ hit ∉ kept := by
  have mem_rest : ∀ hit, hit ∈ sort (all.filter (· ∉ kept)) ↔
      hit ∈ all ∧ hit ∉ kept := by
    intro hit
    rw [(sort_perm _).mem_iff, List.mem_filter, decide_eq_true_iff]
  have restDistinct : (sort (all.filter (· ∉ kept))).Nodup :=
    (sort_perm _).nodup_iff.mpr (allDistinct.filter _)
  refine ⟨sort (all.filter (· ∉ kept)), ordered_sort _, ?_,
    fun hit member => (mem_rest hit).mp member⟩
  refine (List.perm_ext_iff_of_nodup (List.nodup_append.mpr
    ⟨distinct, restDistinct, ?_⟩)
    ((sort_perm all).nodup_iff.mpr allDistinct)).mpr fun hit => ?_
  · rintro hit kept _ member rfl
    exact ((mem_rest hit).mp member).2 kept
  · rw [List.mem_append, mem_rest, (sort_perm all).mem_iff]
    constructor
    · rintro (member | ⟨member, _⟩)
      · exact subset member
      · exact member
    · intro member
      by_cases taken : hit ∈ kept
      · exact Or.inl taken
      · exact Or.inr ⟨member, taken⟩

theorem take_sort_of_length {kept all : List Hit} {width : Nat}
    (length : kept.length = min width all.length) :
    (sort all).take width = (sort all).take kept.length := by
  rw [length, ← (sort_perm all).length_eq, ← List.take_eq_take_min]

/-- Hits in order are the first of all if the others follow them. -/
theorem eq_take_sort {kept all : List Hit} {width : Nat}
    (ordered : Ordered kept) (distinct : kept.Nodup)
    (allDistinct : all.Nodup) (subset : kept ⊆ all)
    (length : kept.length = min width all.length)
    (follow : ∀ other ∈ all, other ∉ kept → ∀ hit ∈ kept,
      hit.le other = true) :
    kept = (sort all).take width := by
  obtain ⟨rest, restOrdered, perm, left⟩ :=
    exists_rest distinct allDistinct subset
  have whole : kept ++ rest = sort all := by
    refine eq_of_perm (List.pairwise_append.mpr
      ⟨ordered, restOrdered, fun hit taken other member => ?_⟩)
      (ordered_sort all) perm
    exact follow other (left other member).1 (left other member).2 hit taken
  rw [take_sort_of_length length, ← whole, List.take_left]

end Hit

namespace Sweep.Sound

variable {terrain : Terrain} {inside : PointId → Prop} {width : Nat}
  {sweep : Sweep}

theorem hits_nodup (sound : sweep.Sound terrain inside width) :
    (terrain.hits sweep.seen).Nodup :=
  sound.seen_nodup.map terrain.hit_injective

theorem kept_length_hits (sound : sweep.Sound terrain inside width) :
    sweep.kept.length = min width (terrain.hits sweep.seen).length := by
  rw [sound.kept_length, Terrain.hits, List.length_map]

theorem hits_ids_kept (sound : sweep.Sound terrain inside width) :
    terrain.hits (sweep.kept.map Hit.id) = sweep.kept := by
  have marked : ∀ hit ∈ sweep.kept, terrain.hit hit.id = hit :=
    fun hit kept => (Terrain.mem_hits.mp (sound.kept_seen hit kept)).2.symm
  rw [Terrain.hits, List.map_map]
  exact (List.map_congr_left marked).trans (List.map_id _)

theorem mem_ids_kept (sound : sweep.Sound terrain inside width)
    {id : PointId} :
    id ∈ sweep.kept.map Hit.id ↔ terrain.hit id ∈ sweep.kept := by
  rw [← Terrain.hit_mem_hits, sound.hits_ids_kept]

theorem ids_nodup (sound : sweep.Sound terrain inside width) :
    (sweep.kept.map Hit.id).Nodup := by
  apply List.Nodup.of_map terrain.hit
  change (terrain.hits (sweep.kept.map Hit.id)).Nodup
  rw [sound.hits_ids_kept]
  exact sound.kept_nodup

/-- A hit that is left out is not nearer than a kept one. -/
theorem rank_le_of_notMem (sound : sweep.Sound terrain inside width)
    {hit other : Hit} (seen : other ∈ terrain.hits sweep.seen)
    (dropped : other ∉ sweep.kept) (kept : hit ∈ sweep.kept) :
    hit.distance.rank ≤ other.distance.rank := by
  obtain ⟨member, marked⟩ := Terrain.mem_hits.mp seen
  have order := sound.rank_le other.id member (marked ▸ dropped) hit kept
  rwa [marked]

/-- The kept hits have the least distances of all points seen. -/
theorem ranks_kept (sound : sweep.Sound terrain inside width) :
    sweep.kept.map (·.distance.rank) =
      ((Hit.sort (terrain.hits sweep.seen)).take width).map
        (·.distance.rank) := by
  obtain ⟨rest, restOrdered, perm, left⟩ :=
    Hit.exists_rest sound.kept_nodup sound.hits_nodup sound.kept_seen
  have ranksOrdered : ∀ {hits : List Hit}, Hit.Ordered hits →
      (hits.map (·.distance.rank)).Pairwise (· ≤ ·) := fun ordered =>
    List.pairwise_map.mpr (ordered.imp Hit.rank_le)
  have ranks : (sweep.kept ++ rest).map (·.distance.rank) =
      (Hit.sort (terrain.hits sweep.seen)).map (·.distance.rank) := by
    refine (perm.map _).eq_of_pairwise (fun _ _ _ _ => le_antisymm) ?_
      (ranksOrdered (Hit.ordered_sort _))
    rw [List.map_append]
    refine List.pairwise_append.mpr ⟨ranksOrdered sound.kept_ordered,
      ranksOrdered restOrdered, ?_⟩
    simp only [List.forall_mem_map]
    intro hit kept other member
    exact sound.rank_le_of_notMem (left other member).1
      (left other member).2 kept
  rw [Hit.take_sort_of_length sound.kept_length_hits, List.map_take, ← ranks,
    List.map_append, List.take_left' (List.length_map _)]

theorem distances_kept (sound : sweep.Sound terrain inside width) :
    sweep.kept.map Hit.distance =
      ((Hit.sort (terrain.hits sweep.seen)).take width).map Hit.distance := by
  apply List.map_injective_iff.mpr fun _ _ => Scalar.rank_injective
  rw [List.map_map, List.map_map]
  exact sound.ranks_kept

/-- The kept hits are the first ones by distance and number unless a tie with
the last of them has been decided against the lower number. -/
theorem kept_eq_take_iff (sound : sweep.Sound terrain inside width) :
    sweep.kept = (Hit.sort (terrain.hits sweep.seen)).take width ↔
      ∀ other ∈ terrain.hits sweep.seen, other ∉ sweep.kept →
        ∀ last, sweep.kept.getLast? = some last →
          other.distance = last.distance → last.id < other.id := by
  constructor
  · intro nearest other seen dropped last isLast tied
    have lastKept := List.mem_of_getLast? isLast
    have order : last.le other = true := Hit.le_of_mem_take
      (Hit.ordered_sort (terrain.hits sweep.seen)) (nearest ▸ lastKept)
      ((Hit.sort_perm _).mem_iff.mpr seen) (nearest ▸ dropped)
    have lower : last.id ≤ other.id := by
      rw [Hit.le_iff, tied] at order
      exact (order.resolve_left (lt_irrefl _)).2
    refine lower.lt_of_ne fun same => dropped ?_
    rw [Hit.le_antisymm (Hit.le_iff.mpr (Or.inr ⟨tied ▸ rfl, same.ge⟩)) order]
    exact lastKept
  · intro decided
    refine Hit.eq_take_sort sound.kept_ordered sound.kept_nodup
      sound.hits_nodup sound.kept_seen sound.kept_length_hits
      fun other seen dropped hit kept => ?_
    have isLast := List.getLast?_eq_some_getLast (List.ne_nil_of_mem kept)
    refine Hit.le_trans (Hit.le_getLast sound.kept_ordered isLast kept) ?_
    have order := sound.rank_le_of_notMem seen dropped
      (List.mem_of_getLast? isLast)
    rcases order.lt_or_eq with nearer | tied
    · exact Hit.le_iff.mpr (Or.inl nearer)
    · exact Hit.le_iff.mpr (Or.inr ⟨tied, (decided other seen dropped _ isLast
        (Scalar.rank_injective tied.symm)).le⟩)

end Sweep.Sound

end SmallWorld
