import SmallWorld.Proofs.GroundTruth
import SmallWorld.Proofs.Index.Exactness
import SmallWorld.Proofs.Traversal.Widening

/-!
# Wider searches

Where no two points are equally distant from a query, a wider beam sees all
the points that a narrower one sees, returns hits that are at least as near,
misses none of the true neighbours found before, and works at least as much.
-/

namespace SmallWorld.Index

variable {σ : Type} {index : Index σ} {runs : Runs} {query : Coordinates}
  {entryPoint : PointId}

/-- Whether no two points are equally distant from a query. -/
def Separates (index : Index σ) (query : Coordinates) : Prop :=
  ∀ first second, first < index.size → second < index.size →
    index.cloud.distanceTo first query = index.cloud.distanceTo second query →
    first = second

theorem Separates.separated (separates : index.Separates query) {level : Nat}
    {inside : PointId → Prop}
    (presents : (Layer.of index.cloud index.links query level).Presents inside
      (index.terrain runs query level))
    (lt_size : ∀ {id}, inside id → id < index.size) :
    (index.terrain runs query level).Separated inside := by
  intro first second firstInside secondInside equal
  refine separates _ _ (lt_size firstInside) (lt_size secondInside) ?_
  exact (presents.distance_eq firstInside).trans
    ((congrArg Except.ok equal).trans (presents.distance_eq secondInside).symm)

namespace Sound

theorem separated (sound : index.Sound runs)
    (acceptable : Acceptable index.cloud.dimension query)
    (separates : index.Separates query) :
    (index.terrain runs query 0).Separated (index.links.Reaches 0) :=
  separates.separated (sound.presents acceptable 0) sound.lt_size

theorem course_before (sound : index.Sound runs)
    (acceptable : Acceptable index.cloud.dimension query)
    (separates : index.Separates query)
    (entry : index.entryPoint = some entryPoint) {narrow wide : Nat}
    (narrowPos : 0 < narrow) (widthLe : narrow ≤ wide) :
    (index.course runs query entryPoint narrow).Before
      (index.course runs query entryPoint wide) := by
  obtain ⟨_, reaches, marked⟩ :=
    (sound.navigable acceptable entry).descent_eq
  have marks : (index.terrain runs query 0).Marks
      (index.descended runs query entryPoint).1 := marked
  exact (Sweep.Paired.ofSeed marks reaches).before_advance
    (sound.separated acceptable separates) (sound.comparable acceptable 0)
    (fun reaches member => sound.proper.reaches reaches member) narrowPos
    widthLe _

theorem eq_hit_of_kept (sound : index.Sound runs)
    (acceptable : Acceptable index.cloud.dimension query)
    (entry : index.entryPoint = some entryPoint) {width : Nat} {hit : Hit}
    (kept : hit ∈ (index.course runs query entryPoint width).kept) :
    hit = index.cloud.hit query hit.id ∧ hit.id < index.cloud.size := by
  have courseSound := sound.course_sound acceptable entry width
  obtain ⟨seen, marked⟩ :=
    Terrain.mem_hits.mp (courseSound.kept_seen hit kept)
  exact ⟨marked, sound.lt_size (courseSound.seen_inside _ seen)⟩

theorem distance_le_of_le (sound : index.Sound runs)
    (acceptable : Acceptable index.cloud.dimension query)
    {near far : Hit}
    (nearMarked : near = index.cloud.hit query near.id ∧
      near.id < index.cloud.size)
    (farMarked : far = index.cloud.hit query far.id ∧
      far.id < index.cloud.size)
    (order : near.le far = true) : near.distance ≤ far.distance := by
  have rank := Hit.rank_le order
  rw [nearMarked.1, farMarked.1] at rank ⊢
  exact (sound.cloud.reach_le_iff acceptable nearMarked.2
    farMarked.2).mpr rank

theorem commonCount_le (sound : index.Sound runs)
    (acceptable : Acceptable index.cloud.dimension query)
    (separates : index.Separates query)
    (entry : index.entryPoint = some entryPoint) {count narrow wide : Nat}
    (narrowPos : 0 < narrow) (widthLe : narrow ≤ wide)
    (enough : count ≤ narrow) :
    commonCount (exactIds index.cloud.vectors.toList count query)
        (((index.course runs query entryPoint narrow).kept.take count).map
          Hit.id) count ≤
      commonCount (exactIds index.cloud.vectors.toList count query)
        (((index.course runs query entryPoint wide).kept.take count).map
          Hit.id) count := by
  have before :=
    sound.course_before acceptable separates entry narrowPos widthLe
  have narrowSound := sound.course_sound acceptable entry narrow
  have wideSound := sound.course_sound acceptable entry wide
  have all : ∀ id, id ∈ List.range index.size ↔ id < index.size :=
    fun _ => List.mem_range
  have exact_ := sound.sort_eq_exactNearest acceptable List.nodup_range all
    count
  refine SmallWorld.commonCount_le fun id found nearest => ?_
  rw [← List.map_take, List.take_take, Nat.min_self] at found ⊢
  rw [exactIds, ← List.map_take, ← exact_, List.take_take,
    Nat.min_self] at nearest
  obtain ⟨hit, taken, rfl⟩ := List.mem_map.mp found
  obtain ⟨other, first, same⟩ := List.mem_map.mp nearest
  have marked := (sound.eq_hit_of_kept acceptable entry
    (List.mem_of_mem_take taken)).1
  have otherMarked : other = index.cloud.hit query other.id := by
    obtain ⟨known, _, rfl⟩ := List.mem_map.mp
      ((Hit.sort_perm _).mem_iff.mp (List.mem_of_mem_take first))
    rfl
  rw [otherMarked, same, ← marked] at first
  refine List.mem_map_of_mem (before.mem_take narrowSound wideSound
    (sound.separated acceptable separates) enough (enough.trans widthLe)
    List.nodup_range (fun seen member => ?_) taken first)
  exact (all seen).mpr
    (sound.reaches_zero.mp (wideSound.seen_inside seen member))

end Sound

/-- A search with a wider beam is never worse, and takes no less work. -/
theorem Reachable.search_mono [UniformSource σ]
    (reachable : index.Reachable) (nonempty : 0 < index.size)
    (accepted : requireAcceptable index.dimension query = .ok ())
    (separates : index.Separates query) {count narrowWidth wideWidth : Nat}
    (countPos : 1 ≤ count) (narrowPos : 1 ≤ narrowWidth)
    (widthLe : narrowWidth ≤ wideWidth) :
    ∃ (narrow wide : Beam) (few many : List Hit) (less more : Work),
      index.beam query (max narrowWidth count) = .ok narrow ∧
      index.beam query (max wideWidth count) = .ok wide ∧
      (∀ id, narrow.seen.contains id = true →
        wide.seen.contains id = true) ∧
      index.searchWithWork query count narrowWidth = .ok (few, less) ∧
      index.searchWithWork query count wideWidth = .ok (many, more) ∧
      few = narrow.kept.take count ∧ many = wide.kept.take count ∧
      few.length ≤ many.length ∧
      (∀ (position : Nat) (far : Hit), few[position]? = some far →
        ∃ near : Hit, many[position]? = some near ∧
          near.distance ≤ far.distance) ∧
      commonCount (exactIds index.cloud.vectors.toList count query)
          (few.map Hit.id) count ≤
        commonCount (exactIds index.cloud.vectors.toList count query)
          (many.map Hit.id) count ∧
      less.distances ≤ more.distances ∧ less.visited ≤ more.visited ∧
      less.hops ≤ more.hops := by
  obtain ⟨runs, sound⟩ := reachable.sound
  have acceptable := requireAcceptable_eq_ok_iff.mp accepted
  obtain ⟨entryPoint, entry⟩ := sound.exists_entry nonempty
  have widerLe : max narrowWidth count ≤ max wideWidth count :=
    max_le_max_right count widthLe
  obtain ⟨narrow, narrowEnds, narrowTracks, _⟩ :=
    (sound.navigable acceptable entry).beam_eq (max narrowWidth count)
  obtain ⟨wide, wideEnds, wideTracks, _⟩ :=
    (sound.navigable acceptable entry).beam_eq (max wideWidth count)
  have narrowSound :=
    sound.course_sound acceptable entry (max narrowWidth count)
  have wideSound := sound.course_sound acceptable entry (max wideWidth count)
  have before := sound.course_before acceptable separates entry
    (narrowPos.trans (le_max_left _ count)) widerLe
  have separated := sound.separated acceptable separates
  have narrowEnough := le_max_right narrowWidth count
  have wideEnough := le_max_right wideWidth count
  have narrowAnswer :=
    (sound.navigable acceptable entry).searchWithWork_eq acceptable countPos
      narrowPos
  have wideAnswer :=
    (sound.navigable acceptable entry).searchWithWork_eq acceptable countPos
      (narrowPos.trans widthLe)
  refine ⟨narrow, wide, _, _, _, _, narrowEnds, wideEnds, ?_, narrowAnswer,
    wideAnswer, ?_, ?_, ?_, ?_, ?_, ?_, ?_, ?_⟩
  · intro id seen
    rw [narrowTracks.contains_eq, decide_eq_true_iff] at seen
    rw [wideTracks.contains_eq, decide_eq_true_iff]
    exact before.seen_suffix.subset seen
  · rw [narrowTracks.kept_eq]
  · rw [wideTracks.kept_eq]
  · have narrowLength := narrowSound.kept_length
    have wideLength := wideSound.kept_length
    have := before.seen_suffix.length_le
    rw [List.length_take, List.length_take]
    omega
  · intro position far listed
    obtain ⟨near, found, order⟩ := before.le_getElem? narrowSound wideSound
      separated narrowEnough wideEnough listed
    refine ⟨near, found, sound.distance_le_of_le acceptable ?_ ?_ order⟩
    · exact sound.eq_hit_of_kept acceptable entry
        (List.mem_of_mem_take (List.mem_of_getElem? found))
    · exact sound.eq_hit_of_kept acceptable entry
        (List.mem_of_mem_take (List.mem_of_getElem? listed))
  · exact sound.commonCount_le acceptable separates entry
      (narrowPos.trans (le_max_left _ count)) widerLe narrowEnough
  · exact Nat.add_le_add_left before.measured_le _
  · exact Nat.add_le_add_left before.seen_suffix.length_le _
  · exact Nat.add_le_add_left before.expanded_le _

theorem IsLine.separates_one {line : Index (Cycle Float)}
    (isLine : IsLine line) : line.Separates [Scalar.one] := by
  have different : ∀ first < 6, ∀ second < 6,
      Cloud.distanceTo { dimension := 1, vectors := linePoints.toArray }
          first [Scalar.one] =
        Cloud.distanceTo { dimension := 1, vectors := linePoints.toArray }
          second [Scalar.one] → first = second := by
    decide +kernel
  intro first second firstInside secondInside equal
  rw [isLine.size_eq] at firstInside secondInside
  rw [isLine.cloud_eq] at equal
  exact different first firstInside second secondInside equal

theorem line_search_mono : ∃ line : Index (Cycle Float),
    line.Reachable ∧ 0 < line.size ∧
    requireAcceptable line.dimension [Scalar.one] = .ok () ∧
    line.Separates [Scalar.one] ∧
    ∃ (few many : List Hit) (less more : Work),
      line.searchWithWork [Scalar.one] 2 1 = .ok (few, less) ∧
      line.searchWithWork [Scalar.one] 2 6 = .ok (many, more) ∧
      few.length ≤ many.length ∧ less.visited ≤ more.visited := by
  obtain ⟨line, isLine⟩ := exists_isLine
  have nonempty : 0 < line.size := isLine.size_eq ▸ Nat.zero_lt_succ 5
  have accepted := isLine.accepted [Scalar.one] (by decide +kernel)
  obtain ⟨_, _, few, many, less, more, _, _, _, narrow, wide, _, _, length, _,
      _, _, visited, _⟩ :=
    isLine.reachable.search_mono nonempty accepted isLine.separates_one
      (show 1 ≤ 2 by decide) (Nat.le_refl 1) (show 1 ≤ 6 by decide)
  exact ⟨line, isLine.reachable, nonempty, accepted, isLine.separates_one, few,
    many, less, more, narrow, wide, length, visited⟩

end SmallWorld.Index
