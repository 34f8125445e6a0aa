import SmallWorld.Proofs.Index.Structure
import SmallWorld.Proofs.Index.Widths
import SmallWorld.Proofs.Traversal.Outcome
import SmallWorld.Proofs.Traversal.SlotOrder

/-!
# Queries and the order of the slots

Two indexes may differ in nothing but the order of the neighbours in their
runs.  A query from which no two points are equally distant then gets the same
hits from both of them, after the same work.
-/

namespace SmallWorld

/-- The neighbours that are listed in the slots. -/
def Links.listing (links : Links) : Runs :=
  fun id level => (links.neighbors id level).toOption.getD []

theorem Links.listing_eq {links : Links} {id : PointId} {level : Nat}
    {neighbors : List PointId}
    (listed : links.neighbors id level = .ok neighbors) :
    links.listing id level = neighbors := by
  simp only [listing, listed, Except.toOption, Option.getD_some]

namespace Index

variable {σ τ : Type} {index first : Index σ} {second : Index τ}
  {query : Coordinates} {entryPoint : PointId}

/-- Two indexes over the same points, with the same levels and the same place
to start, whose runs list the same neighbours in any order. -/
structure Rearranges (first : Index σ) (second : Index τ) : Prop where
  cloud_eq : second.cloud = first.cloud
  levels_eq : second.links.levels = first.links.levels
  entryPoint_eq : second.entryPoint = first.entryPoint
  topLevel_eq : second.topLevel = first.topLevel
  perm : ∀ {id level neighbors neighbors'}, first.links.Reaches level id →
    first.links.neighbors id level = .ok neighbors →
      second.links.neighbors id level = .ok neighbors' →
        neighbors.Perm neighbors'

namespace WellFormed

variable (wellFormed : index.WellFormed)
include wellFormed

theorem lt_size {level : Nat} {id : PointId}
    (reaches : index.links.Reaches level id) : id < index.cloud.size :=
  Nat.lt_of_lt_of_eq reaches.lt_size wellFormed.size_eq.symm

/-- Every run can be read, and lists points of its level. -/
theorem neighbors_eq {level : Nat} {id : PointId}
    (reaches : index.links.Reaches level id) :
    index.links.neighbors id level = .ok (index.links.listing id level) ∧
      ∀ neighbor ∈ index.links.listing id level,
        index.links.Reaches level neighbor := by
  obtain ⟨own, found, below⟩ := reaches
  obtain ⟨neighbors, free, run_eq, _, _, onLevel⟩ :=
    wellFormed.run found below
  have listed : index.links.neighbors id level =
      .ok (Links.listed (neighbors ++ List.replicate free noNeighbor)) := by
    simp only [Links.neighbors, run_eq, ok_bind]
    rfl
  rw [Links.listing_eq listed]
  refine ⟨listed, fun neighbor member => ?_⟩
  have used := List.mem_takeWhile_imp member
  rcases List.mem_append.mp ((List.takeWhile_sublist _).subset member) with
    named | free
  · exact (onLevel neighbor named).2.2
  · simp [List.eq_of_mem_replicate free] at used

/-- An accepted query meets no fault in a well-formed index. -/
theorem navigable (sound : index.cloud.IsSound)
    (acceptable : Acceptable index.cloud.dimension query)
    (entry : index.entryPoint = some entryPoint) :
    index.Navigable index.links.listing query entryPoint where
  presents _ :=
    { neighbors_eq := fun reaches => (wellFormed.neighbors_eq reaches).1
      distance_eq := fun reaches =>
        sound.distanceTo_eq acceptable (wellFormed.lt_size reaches)
      closed := fun reaches => (wellFormed.neighbors_eq reaches).2 _ }
  entry_eq := entry
  entry_reaches := ⟨_, wellFormed.entry_level entry, Nat.le_refl _⟩

end WellFormed

theorem Rearranges.reaches (rearranges : first.Rearranges second)
    {level : Nat} {id : PointId} (reaches : first.links.Reaches level id) :
    second.links.Reaches level id := by
  unfold Links.Reaches
  rw [rearranges.levels_eq]
  exact reaches

theorem Rearranges.terrain (rearranges : first.Rearranges second)
    (wellFormed : first.WellFormed) (wellFormed' : second.WellFormed)
    (query : Coordinates) (level : Nat) :
    (first.terrain first.links.listing query level).Rearranges
      (first.links.Reaches level)
      (second.terrain second.links.listing query level) where
  distance_eq := congrArg (Cloud.reach · query) rearranges.cloud_eq
  perm reaches :=
    rearranges.perm reaches (wellFormed.neighbors_eq reaches).1
      (wellFormed'.neighbors_eq (rearranges.reaches reaches)).1

section Queries

variable (wellFormed : first.WellFormed) (wellFormed' : second.WellFormed)
  (rearranges : first.Rearranges second)
  (navigable : first.Navigable first.links.listing query entryPoint)
  (separates : first.Separates query)
include wellFormed wellFormed' rearranges navigable separates

theorem Rearranges.descended_eq :
    second.descended second.links.listing query entryPoint =
      first.descended first.links.listing query entryPoint := by
  unfold descended size
  rw [rearranges.cloud_eq, rearranges.topLevel_eq]
  exact descendOver_eq_of_rearranges first.links.Reaches Links.Reaches.of_le
    (rearranges.terrain wellFormed wellFormed' query)
    (fun level => (navigable.presents level).comparable)
    (fun level => separates.separated (navigable.presents level)
      wellFormed.lt_size)
    (fun level => (navigable.presents level).closed) _
    navigable.entry_reaches

/-- Both sweeps keep the same hits after the same work. -/
theorem Rearranges.alike {width : Nat} (widthPos : 0 < width) :
    Sweep.Alike (first.terrain first.links.listing query 0)
      (first.links.Reaches 0) width
      (first.course first.links.listing query entryPoint width)
      (second.course second.links.listing query entryPoint width) := by
  obtain ⟨_, reaches, marked⟩ := navigable.descent_eq
  have presents := navigable.presents 0
  unfold course size
  rw [rearranges.cloud_eq, rearranges.descended_eq wellFormed wellFormed'
    navigable separates]
  refine Sweep.alike_sweep
    (separates.separated presents wellFormed.lt_size) presents.comparable
    widthPos (rearranges.terrain wellFormed wellFormed' query 0)
    presents.closed _ (fun seed listed => ?_) (fun seed listed => ?_)
  · rw [List.mem_singleton.mp listed]
    exact marked
  · rwa [List.mem_singleton.mp listed]

end Queries

/-- The neighbours in one run may be put in any order. -/
theorem Sound.exists_rearranged {runs : Runs} (sound : index.Sound runs)
    {id : PointId} {level : Nat} (reaches : index.links.Reaches level id)
    {neighbors : List PointId} (perm : (runs id level).Perm neighbors) :
    ∃ links, index.links.overwrite id level neighbors = .ok links ∧
      Index.Sound { index with links } (runs.set id level neighbors) ∧
      index.Rearranges { index with links } := by
  have represents := sound.represents
  obtain ⟨slots, written, represents'⟩ := represents.overwrite_eq reaches
    (perm.length_eq ▸ represents.length_le reaches)
    (mt perm.mem_iff.mpr (represents.noNeighbor_notMem reaches))
  have set_perm : ∀ other level',
      (runs other level').Perm (runs.set id level neighbors other level') := by
    intro other level'
    unfold Runs.set
    split
    · next same => rwa [same.1, same.2]
    · exact List.Perm.refl _
  refine ⟨_, written,
    { sound with represents := represents', proper := ?_ }, rfl, rfl, rfl,
    rfl, ?_⟩
  · exact
      { nodup := fun reaches => (set_perm _ _).nodup_iff.mp
          (sound.proper.nodup reaches)
        ne := fun reaches member => sound.proper.ne reaches
          ((set_perm _ _).mem_iff.mpr member)
        reaches := fun reaches member => sound.proper.reaches reaches
          ((set_perm _ _).mem_iff.mpr member) }
  · intro other level' listed listed' reaches' found found'
    cases (represents.neighbors_eq reaches').symm.trans found
    cases (represents'.neighbors_eq reaches').symm.trans found'
    exact set_perm other level'

/-- The order of the slots affects neither the hits nor the work of a query
from which no two points are equally distant. -/
theorem searchWithWork_eq_of_rearranges
    (wellFormed : first.WellFormed) (wellFormed' : second.WellFormed)
    (rearranges : first.Rearranges second) (sound : first.cloud.IsSound)
    (accepted : requireAcceptable first.dimension query = .ok ())
    (separates : first.Separates query) {count width : Nat}
    (countPos : 1 ≤ count) (widthPos : 1 ≤ width) :
    second.searchWithWork query count width =
        first.searchWithWork query count width ∧
      (0 < first.size → ∃ hits work,
        first.searchWithWork query count width = .ok (hits, work)) := by
  have acceptable := requireAcceptable_eq_ok_iff.mp accepted
  have cloud := rearranges.cloud_eq
  have acceptable' : Acceptable second.cloud.dimension query := by
    rwa [cloud]
  cases entry : first.entryPoint with
  | none =>
      have empty := wellFormed.entry_none_iff.mp entry
      refine ⟨?_, fun nonempty => absurd empty nonempty.ne'⟩
      rw [searchWithWork_eq_noPoints acceptable entry countPos widthPos]
      exact searchWithWork_eq_noPoints acceptable'
        (rearranges.entryPoint_eq.trans entry) countPos widthPos
  | some entryPoint =>
      have entry' := rearranges.entryPoint_eq.trans entry
      have navigable := wellFormed.navigable sound acceptable entry
      have navigable' :=
        wellFormed'.navigable (cloud ▸ sound) acceptable' entry'
      have answer := navigable.searchWithWork_eq acceptable countPos widthPos
      have answer' :=
        navigable'.searchWithWork_eq acceptable' countPos widthPos
      have wide : 0 < max width count := widthPos.trans (le_max_left _ _)
      have alike := rearranges.alike wellFormed wellFormed' navigable
        separates wide
      have separated := separates.separated (navigable.presents 0)
        wellFormed.lt_size
      rw [answer, answer', rearranges.descended_eq wellFormed wellFormed'
        navigable separates, alike.kept_eq separated, alike.measured_eq,
        alike.expanded_eq, alike.seen_perm.length_eq]
      exact ⟨rfl, fun _ => ⟨_, _, rfl⟩⟩

/-- The neighbours of the second point of the line, put into another order,
lead to the same answer: the second and the fifth point, after five points seen
and seven distances. -/
theorem line_searchWithWork_rearranged :
    ∃ line other : Index (Cycle Float),
      line.WellFormed ∧ other.WellFormed ∧ line.Rearranges other ∧
      line.cloud.IsSound ∧
      requireAcceptable line.dimension [Scalar.one] = .ok () ∧
      line.Separates [Scalar.one] ∧ 1 ≤ 2 ∧ 1 ≤ 1 ∧
      line.links.neighbors 1 0 = .ok [4, 5, 2, 3] ∧
      other.links.neighbors 1 0 = .ok [2, 3, 4, 5] ∧
      line.searchWithWork [Scalar.one] 2 1 =
        .ok ([⟨.ofBits 0x3f800000, 1⟩, ⟨.ofBits 0x40400000, 4⟩],
          ⟨7, 5, 4⟩) ∧
      other.searchWithWork [Scalar.one] 2 1 =
        .ok ([⟨.ofBits 0x3f800000, 1⟩, ⟨.ofBits 0x40400000, 4⟩],
          ⟨7, 5, 4⟩) := by
  obtain ⟨line, isLine⟩ := exists_isLine
  have sound := isLine.sound
  have reaches : line.links.Reaches 0 1 :=
    sound.reaches_zero.mpr (isLine.size_eq ▸ by decide)
  have run : lineRuns 1 0 = [4, 5, 2, 3] := by decide +kernel
  have perm : (lineRuns 1 0).Perm [2, 3, 4, 5] := by
    rw [run]
    decide
  obtain ⟨links, _, sound', rearranges⟩ := sound.exists_rearranged reaches perm
  have accepted := isLine.accepted [Scalar.one] (by decide +kernel)
  have acceptable := requireAcceptable_eq_ok_iff.mp accepted
  have listed := sound.represents.neighbors_eq reaches
  have listed' :=
    sound'.represents.neighbors_eq (rearranges.reaches reaches)
  rw [run] at listed
  rw [Runs.set_self] at listed'
  obtain ⟨same, _⟩ := searchWithWork_eq_of_rearranges sound.wellFormed
    sound'.wellFormed rearranges sound.cloud accepted isLine.separates_one
    (show 1 ≤ 2 by decide) (Nat.le_refl 1)
  have answer : line.searchWithWork [Scalar.one] 2 1 =
      .ok ([⟨.ofBits 0x3f800000, 1⟩, ⟨.ofBits 0x40400000, 4⟩], ⟨7, 5, 4⟩) := by
    rw [(sound.navigable acceptable isLine.entryPoint_eq).searchWithWork_eq
      acceptable (by decide) (by decide), isLine.course_eq,
      isLine.descended_eq]
    decide +kernel
  exact ⟨line, _, sound.wellFormed, sound'.wellFormed, rearranges, sound.cloud,
    accepted, isLine.separates_one, by decide, by decide, listed, listed',
    answer, same.trans answer⟩

end Index

end SmallWorld
