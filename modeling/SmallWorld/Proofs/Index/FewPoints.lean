import SmallWorld.Proofs.Index.Connectivity
import SmallWorld.Proofs.Index.Edges

/-!
# Indexes of few points

A run of level 0 is not full before there are more other points than it has
slots.  Until then no edge is dropped: neighbours list each other, the runs
lead from every point to every other one, and wide searches are exact.
-/

namespace SmallWorld.Index

variable {σ : Type} {index next : Index σ} {runs : Runs} {level own : Nat}
  {id neighbor entryPoint first second : PointId}
  {vector query : Coordinates}

/-- A run lists other points only, each once. -/
theorem Sound.length_lt_size (sound : index.Sound runs)
    (reaches : index.links.Reaches level id) :
    (runs id level).length < index.size := by
  have distinct : (id :: runs id level).Nodup :=
    List.nodup_cons.mpr ⟨fun member => sound.proper.ne reaches member rfl,
      sound.proper.nodup reaches⟩
  have inside : id :: runs id level ⊆ List.range index.size := by
    intro other member
    apply List.mem_range.mpr
    rcases List.mem_cons.mp member with rfl | listed
    · exact sound.lt_size reaches
    · exact sound.lt_size (sound.proper.reaches reaches listed)
  have counted := (distinct.subperm inside).length_le
  rwa [List.length_cons, List.length_range] at counted

/-- Neighbours on level 0 list each other, and the runs lead from every point
to every other one. -/
structure Mutual (index : Index σ) (runs : Runs) : Prop where
  symmetric : ∀ {first second : PointId}, index.links.Reaches 0 first →
    second ∈ runs first 0 → first ∈ runs second 0
  leadsTo : ∀ {first second : PointId}, index.links.Reaches 0 first →
    index.links.Reaches 0 second → index.links.LeadsTo 0 first second

section Few

variable (sound : index.Sound runs)
  (few : index.size ≤ index.links.table.runLength 0)
  (acceptable : Acceptable index.cloud.dimension vector)
  (entry : index.entryPoint = some entryPoint)
include sound few acceptable entry

/-- With few points an old run only gains the new point, if at all. -/
theorem Sound.mem_grown_of_few (reaches : index.links.Reaches 0 id) :
    neighbor ∈ index.grown runs vector own id 0 ↔
      neighbor ∈ runs id 0 ∨ neighbor = index.size ∧
        id ∈ index.selection runs vector entryPoint own 0 := by
  rcases sound.grown_zero acceptable entry own reaches with
    ⟨notSelected, same⟩ | ⟨selected, appended⟩ | ⟨full, _⟩
  · rw [same]
    simp only [notSelected, and_false, or_false]
  · rw [appended, List.mem_append, List.mem_singleton]
    simp only [selected, and_true]
  · have counted := sound.length_lt_size reaches
    omega

variable [UniformSource σ] (gains : index.Gains vector next)
  (mutually : index.Mutual runs)
include gains mutually

theorem Mutual.symmetric_grown (reaches : next.links.Reaches 0 first)
    (listed : second ∈ index.grown runs vector own first 0) :
    first ∈ index.grown runs vector own second 0 := by
  rcases (gains.reaches_iff sound.size_eq).mp reaches with old | ⟨rfl, _⟩
  · rcases (sound.mem_grown_of_few few acceptable entry old).mp listed with
      before | ⟨rfl, selected⟩
    · have secondOld := sound.proper.reaches old before
      exact (sound.mem_grown_of_few few acceptable entry secondOld).mpr
        (Or.inl (mutually.symmetric old before))
    · rwa [sound.grown_size acceptable entry (Nat.zero_le _)]
  · rw [sound.grown_size acceptable entry (Nat.zero_le _)] at listed
    have secondOld := sound.selection_reaches acceptable entry
      (Nat.zero_le _) second listed
    exact (sound.mem_grown_of_few few acceptable entry secondOld).mpr
      (Or.inr ⟨rfl, listed⟩)

theorem Mutual.leadsTo_grown
    (sound' : next.Sound (index.grown runs vector own))
    (firstReaches : next.links.Reaches 0 first)
    (secondReaches : next.links.Reaches 0 second) :
    next.links.LeadsTo 0 first second := by
  have reaches_iff : ∀ {id}, next.links.Reaches 0 id ↔
      index.links.Reaches 0 id ∨ id = index.size ∧
        0 ≤ (index.links.table.draw index.source).1 :=
    gains.reaches_iff sound.size_eq
  have between : ∀ {first second}, index.links.Reaches 0 first →
      index.links.Reaches 0 second → next.links.LeadsTo 0 first second :=
    fun firstOld secondOld =>
      (mutually.leadsTo firstOld secondOld).of_subset sound.represents
        sound.proper sound'.represents
        (fun reaches => reaches_iff.mpr (Or.inl reaches))
        (fun reaches _ member =>
          (sound.mem_grown_of_few few acceptable entry reaches).mpr
            (Or.inl member)) firstOld
  obtain ⟨other, selected⟩ := List.exists_mem_of_ne_nil _
    (sound.selection_ne_nil acceptable entry (Nat.zero_le (min own _)))
  have otherOld := sound.selection_reaches acceptable entry (Nat.zero_le _)
    other selected
  have newReaches : next.links.Reaches 0 index.size :=
    reaches_iff.mpr (Or.inr ⟨rfl, Nat.zero_le _⟩)
  have leave : next.links.LeadsTo 0 index.size other :=
    .single ⟨_, sound'.represents.neighbors_eq newReaches,
      (sound.grown_size acceptable entry (Nat.zero_le _)).symm ▸ selected⟩
  have arrive : next.links.LeadsTo 0 other index.size :=
    .single ⟨_, sound'.represents.neighbors_eq
      (reaches_iff.mpr (Or.inl otherOld)),
      (sound.mem_grown_of_few few acceptable entry otherOld).mpr
        (Or.inr ⟨rfl, selected⟩)⟩
  rcases reaches_iff.mp firstReaches with firstOld | ⟨rfl, _⟩ <;>
    rcases reaches_iff.mp secondReaches with secondOld | ⟨rfl, _⟩
  · exact between firstOld secondOld
  · exact (between firstOld otherOld).trans arrive
  · exact leave.trans (between otherOld secondOld)
  · exact .refl

end Few

theorem preserved_mutual [UniformSource σ] :
    PreservedByPlacing fun (index : Index σ) runs =>
      index.size ≤ index.links.table.runLength 0 + 1 →
        index.Mutual runs := by
  intro index runs vector next sound mutually acceptable _ gains sound' few
  rw [gains.size_eq, gains.table_eq] at few
  have fewBefore : index.size ≤ index.links.table.runLength 0 :=
    Nat.le_of_succ_le_succ few
  cases entry : index.entryPoint with
  | none =>
      constructor
      · intro first second reaches listed
        rw [sound.grown_of_noEntry gains entry reaches] at listed
        cases listed
      · intro first second firstReaches secondReaches
        rw [sound.eq_size_of_noEntry gains entry firstReaches,
          sound.eq_size_of_noEntry gains entry secondReaches]
        exact .refl
  | some entryPoint =>
      have before := mutually (Nat.le_succ_of_le fewBefore)
      exact ⟨before.symmetric_grown sound fewBefore acceptable entry gains,
        before.leadsTo_grown sound fewBefore acceptable entry gains sound'⟩

theorem Mutual.leadsTo_iff (mutually : index.Mutual runs)
    (sound : index.Sound runs) (reaches : index.links.Reaches 0 first) :
    index.links.LeadsTo 0 first second ↔ second < index.size := by
  constructor
  · intro path
    exact sound.reaches_zero.mp
      (path.reaches sound.represents sound.proper reaches)
  · intro inside
    exact mutually.leadsTo reaches (sound.reaches_zero.mpr inside)

theorem Mutual.connectivity_eq (mutually : index.Mutual runs)
    (sound : index.Sound runs) (entry : index.entryPoint = some entryPoint) :
    index.connectivity 0 = .ok (index.size, 0) := by
  have entryReaches := (sound.entry_reaches entry).of_le (Nat.zero_le _)
  obtain ⟨region, distinct, region_iff, counted⟩ :=
    sound.connectivity_eq entry (Nat.zero_le _)
  have perm : region.Perm (List.range index.size) := by
    apply (List.perm_ext_iff_of_nodup distinct List.nodup_range).mpr
    intro id
    rw [region_iff, mutually.leadsTo_iff sound entryReaches, List.mem_range]
  have all : index.links.levels.toList.countP (fun own => 0 ≤ own) =
      index.size := by
    rw [List.countP_eq_length.mpr fun own _ => decide_eq_true (Nat.zero_le own),
      Array.length_toList, size, sound.size_eq, Links.size]
  rw [counted, perm.length_eq, List.length_range, all, Nat.sub_self]

theorem Mutual.searchWidth_eq (mutually : index.Mutual runs)
    (sound : index.Sound runs)
    (acceptable : Acceptable index.cloud.dimension query)
    (entry : index.entryPoint = some entryPoint) {count width : Nat}
    (countPos : 1 ≤ count) (widthPos : 1 ≤ width)
    (wide : index.size ≤ max width count) :
    index.searchWidth query count width =
      .ok (exactNearest query index.cloud.vectors.toList count) := by
  obtain ⟨_, reaches, _⟩ :=
    (sound.navigable acceptable entry).descent_eq
  rw [sound.searchWidth_eq_of_wide acceptable entry List.nodup_range
      (fun id => List.mem_range.trans
        (mutually.leadsTo_iff sound reaches).symm) countPos widthPos
      (List.length_range.trans_le wide),
    sound.sort_eq_exactNearest acceptable List.nodup_range
      (fun _ => List.mem_range)]

/-- With at most one point more than a run of level 0 has slots, neighbours
list each other, the index is connected, and the answers of a beam with room
for all points are exact. -/
theorem Reachable.exact_of_few [UniformSource σ]
    (reachable : index.Reachable) (nonempty : 1 ≤ index.size)
    (few : index.size ≤ 2 * index.settings.branching + 1) :
    (∀ first second, index.Lists 0 first second ↔
        index.Lists 0 second first) ∧
      index.connectivity 0 = .ok (index.size, 0) ∧
      ∀ {query : Coordinates} {count width : Nat},
        requireAcceptable index.dimension query = .ok () → 1 ≤ count →
        1 ≤ width → index.size ≤ max width count →
        index.searchWidth query count width =
          .ok (exactNearest query index.cloud.vectors.toList count) := by
  obtain ⟨runs, sound, whileFew⟩ := reachable.induction preserved_mutual
    fun isFresh _ => ⟨fun reaches => (isFresh.not_reaches reaches).elim,
      fun reaches => (isFresh.not_reaches reaches).elim⟩
  have mutually := whileFew (by
    rw [← sound.neighborBound_eq]
    exact few)
  obtain ⟨entryPoint, entry⟩ := sound.exists_entry nonempty
  have listsBack : ∀ first second, index.Lists 0 first second →
      index.Lists 0 second first := by
    intro first second lists
    obtain ⟨reaches, listed⟩ := sound.lists_iff.mp lists
    exact sound.lists_iff.mpr ⟨sound.proper.reaches reaches listed,
      mutually.symmetric reaches listed⟩
  refine ⟨fun first second => ⟨listsBack first second, listsBack second first⟩,
    mutually.connectivity_eq sound entry, ?_⟩
  intro query count width accepted countPos widthPos wide
  exact mutually.searchWidth_eq sound (requireAcceptable_eq_ok_iff.mp accepted)
    entry countPos widthPos wide

theorem line_exact_of_few : ∃ few : Index (Cycle Float),
    few.Reachable ∧ few.size = 5 ∧ few.settings.branching = 2 ∧
    (∀ first second, few.Lists 0 first second ↔ few.Lists 0 second first) ∧
    few.connectivity 0 = .ok (few.size, 0) ∧
    few.searchWidth [Scalar.one] 5 1 =
      .ok (exactNearest [Scalar.one] few.cloud.vectors.toList 5) := by
  have acceptable := requireAllAcceptable_eq_ok_iff.mp
    (show requireAllAcceptable 1 (linePoints.take 5) = .ok () by
      decide +kernel)
  obtain ⟨few, ran, outlined, _⟩ :=
    (lineStart_isFresh.sound fun _ _ => []).run_insert (by decide) acceptable
      (by decide)
  have reachable : few.Reachable := ⟨lineStart, _, lineStart_isFresh, ran⟩
  have size : few.size = 5 :=
    (congrArg (fun outline => outline.cloud.size) outlined).trans rfl
  have branching : few.settings.branching = 2 :=
    (congrArg (fun outline => outline.settings.branching) outlined).trans rfl
  have accepted : requireAcceptable few.dimension [Scalar.one] = .ok () := by
    rw [show few.dimension = 1 from
      (congrArg (fun outline => outline.cloud.dimension) outlined).trans rfl]
    decide +kernel
  obtain ⟨mutually, connected, exact_⟩ := reachable.exact_of_few
    (by rw [size]; decide) (by rw [size, branching])
  exact ⟨few, reachable, size, branching, mutually, connected,
    exact_ accepted (by decide) (by decide) (by rw [size]; decide)⟩

end SmallWorld.Index
