import Mathlib.Tactic
import SmallWorld.Proofs.Scalar.Comparison
import SmallWorld.Hit

/-!
# The order of hits

Hits are in a linear order, so a sorted list of them is determined by its
elements: sorting and inserting one after the other end at the same list.
-/

namespace SmallWorld.Hit

variable {first second third hit : Hit} {hits : List Hit}

theorem le_iff : first.le second = true ↔
    first.distance.rank < second.distance.rank ∨
      first.distance.rank = second.distance.rank ∧ first.id ≤ second.id := by
  unfold le
  dsimp only
  split
  · next equal => simp [equal]
  · next different => simp [different]

theorem rank_le (precedes : first.le second = true) :
    first.distance.rank ≤ second.distance.rank := by
  rcases le_iff.mp precedes with less | ⟨equal, _⟩
  · exact less.le
  · exact equal.le

theorem le_total (first second : Hit) :
    (first.le second || second.le first) = true := by
  rw [Bool.or_eq_true, le_iff, le_iff]
  rcases Int.lt_trichotomy first.distance.rank second.distance.rank with
    less | equal | greater
  · exact Or.inl (Or.inl less)
  · rcases Nat.le_total first.id second.id with lower | higher
    · exact Or.inl (Or.inr ⟨equal, lower⟩)
    · exact Or.inr (Or.inr ⟨equal.symm, higher⟩)
  · exact Or.inr (Or.inl greater)

theorem le_refl (hit : Hit) : hit.le hit = true :=
  le_iff.mpr (Or.inr ⟨rfl, Nat.le_refl _⟩)

theorem le_trans (firstLe : first.le second = true)
    (secondLe : second.le third = true) : first.le third = true := by
  rw [le_iff] at firstLe secondLe ⊢
  rcases firstLe with less | ⟨equal, lower⟩
  · left
    omega
  · rw [equal]
    exact secondLe.imp_right fun both => ⟨both.1, lower.trans both.2⟩

theorem le_antisymm (less : first.le second = true)
    (greater : second.le first = true) : first = second := by
  rw [le_iff] at less greater
  have rank : first.distance.rank = second.distance.rank := by omega
  have id : first.id = second.id := by
    rw [rank] at less greater
    simp only [lt_irrefl, true_and, false_or] at less greater
    exact Nat.le_antisymm less greater
  cases first
  cases second
  cases Scalar.rank_injective rank
  cases id
  rfl

theorem le_of_not_le (notLe : first.le second = false) :
    second.le first = true := by
  have total := le_total first second
  rwa [notLe, Bool.false_or] at total

abbrev Ordered (hits : List Hit) : Prop :=
  hits.Pairwise fun first second => first.le second = true

theorem ordered_sort (hits : List Hit) : Ordered (sort hits) := by
  have transitive : ∀ first second third : Hit, first.le second = true →
      second.le third = true → first.le third = true :=
    fun _ _ _ => le_trans
  exact List.pairwise_mergeSort transitive le_total hits

theorem sort_perm (hits : List Hit) : (sort hits).Perm hits :=
  List.mergeSort_perm hits le

theorem eq_of_perm {left right : List Hit} (leftOrdered : Ordered left)
    (rightOrdered : Ordered right) (perm : left.Perm right) : left = right :=
  perm.eq_of_pairwise (fun _ _ _ _ => le_antisymm) leftOrdered rightOrdered

theorem sort_eq_of_perm {left right : List Hit} (perm : left.Perm right) :
    sort left = sort right :=
  eq_of_perm (ordered_sort left) (ordered_sort right)
    ((sort_perm left).trans (perm.trans (sort_perm right).symm))

theorem sort_of_ordered (ordered : Ordered hits) : sort hits = hits :=
  eq_of_perm (ordered_sort hits) ordered (sort_perm hits)

theorem le_of_mem_take (ordered : Ordered hits) {count : Nat}
    (taken : first ∈ hits.take count) (listed : second ∈ hits)
    (left : second ∉ hits.take count) : first.le second = true := by
  rw [← List.take_append_drop count hits] at ordered listed
  have dropped := (List.mem_append.mp listed).resolve_left left
  exact (List.pairwise_append.mp ordered).2.2 first taken second dropped

theorem head_le {rest : List Hit} (ordered : Ordered (first :: rest))
    (listed : hit ∈ first :: rest) : first.le hit = true := by
  rcases List.mem_cons.mp listed with rfl | later
  · exact le_refl hit
  · exact (List.pairwise_cons.mp ordered).1 hit later

theorem le_getLast (ordered : Ordered hits) {worst : Hit}
    (last : hits.getLast? = some worst) (listed : hit ∈ hits) :
    hit.le worst = true := by
  obtain ⟨before, rfl⟩ := List.getLast?_eq_some_iff.mp last
  rcases List.mem_append.mp listed with earlier | isLast
  · exact (List.pairwise_append.mp ordered).2.2 hit earlier worst
      List.mem_cons_self
  · rw [List.mem_singleton.mp isLast]
    exact le_refl worst

theorem sort_sublist {few many : List Hit} (subperm : few.Subperm many) :
    (sort few).Sublist (sort many) := by
  have antisymm : Std.Antisymm fun first second : Hit =>
      first.le second = true := ⟨fun _ _ => le_antisymm⟩
  exact List.sublist_of_subperm_of_pairwise
    ((sort_perm few).subperm_right.mpr
      ((sort_perm many).subperm_left.mpr subperm))
    (ordered_sort few) (ordered_sort many)

theorem mem_take_of_sublist {few many : List Hit}
    (sublist : few.Sublist many) (distinct : many.Nodup) {hit : Hit}
    (listed : hit ∈ few) {count : Nat} (first : hit ∈ many.take count) :
    hit ∈ few.take count := by
  induction sublist generalizing count with
  | slnil => cases listed
  | @cons few many head sublist inductionHypothesis =>
      obtain ⟨fresh, distinct⟩ := List.nodup_cons.mp distinct
      cases count with
      | zero => cases first
      | succ count =>
          have later : hit ∈ many.take count := by
            refine (List.mem_cons.mp first).resolve_left ?_
            rintro rfl
            exact fresh (sublist.subset listed)
          exact (List.take_prefix_take_left (Nat.le_succ count)).subset
            (inductionHypothesis distinct listed later)
  | @cons_cons few many head sublist inductionHypothesis =>
      cases count with
      | zero => cases first
      | succ count =>
          rcases List.mem_cons.mp listed with rfl | later
          · exact List.mem_cons_self
          · obtain ⟨fresh, distinct⟩ := List.nodup_cons.mp distinct
            have behind : hit ∈ many.take count := by
              refine (List.mem_cons.mp first).resolve_left ?_
              rintro rfl
              exact fresh (sublist.subset later)
            exact List.mem_cons_of_mem _
              (inductionHypothesis distinct later behind)

/-- Part of an ordered list starts as the whole if nothing is missing
there. -/
theorem take_eq_iff_of_sublist {few many : List Hit} (ordered : Ordered many)
    (distinct : many.Nodup) (sublist : few.Sublist many) (count : Nat) :
    few.take count = many.take count ↔
      ∀ hit ∈ many.take count, hit ∈ few := by
  constructor
  · intro equal hit first
    rw [← equal] at first
    exact List.mem_of_mem_take first
  · intro all
    have taken : many.take count ⊆ few.take count := fun hit first =>
      mem_take_of_sublist sublist distinct (all hit first) first
    have shorter : (few.take count).length ≤ (many.take count).length := by
      have := sublist.length_le
      rw [List.length_take, List.length_take]
      omega
    have perm := ((distinct.sublist (List.take_sublist _ _)).subperm
      taken).perm_of_length_le shorter
    exact eq_of_perm
      ((ordered.sublist sublist).sublist (List.take_sublist _ _))
      (ordered.sublist (List.take_sublist _ _)) perm.symm

/-- In a longer list each position holds a hit that is not farther. -/
theorem le_getElem?_of_sublist {few many : List Hit} (ordered : Ordered many)
    (sublist : few.Sublist many) {position : Nat} {far : Hit}
    (listed : few[position]? = some far) :
    ∃ near, many[position]? = some near ∧ near.le far = true := by
  obtain ⟨places, placed⟩ :=
    List.sublist_iff_exists_orderEmbedding_getElem?_eq.mp sublist
  rw [placed position] at listed
  obtain ⟨later, found⟩ := List.getElem?_eq_some_iff.mp listed
  have forward : position ≤ places position :=
    places.strictMono.le_apply
  have inside : position < many.length := forward.trans_lt later
  refine ⟨many[position], List.getElem?_eq_getElem inside, ?_⟩
  rcases forward.eq_or_lt with same | before
  · rw [← found]
    simp only [← same]
    exact le_refl _
  · rw [← found]
    exact List.pairwise_iff_getElem.mp ordered _ _ inside later before

theorem insert_perm (hit : Hit) (hits : List Hit) :
    (insert hit hits).Perm (hit :: hits) := by
  induction hits with
  | nil => exact List.Perm.refl _
  | cons first rest inductionHypothesis =>
      unfold insert
      split
      · exact List.Perm.refl _
      · exact (inductionHypothesis.cons first).trans
          (List.Perm.swap hit first rest)

theorem ordered_insert (ordered : Ordered hits) :
    Ordered (insert hit hits) := by
  induction ordered with
  | nil => exact List.pairwise_singleton _ hit
  | @cons first rest before later inductionHypothesis =>
      unfold insert
      split
      · next precedes =>
          refine List.pairwise_cons.mpr ⟨?_, List.pairwise_cons.mpr
            ⟨before, later⟩⟩
          intro other member
          rcases List.mem_cons.mp member with rfl | inRest
          · exact precedes
          · exact le_trans precedes (before other inRest)
      · next follows =>
          refine List.pairwise_cons.mpr ⟨?_, inductionHypothesis⟩
          intro other member
          rcases mem_insert.mp member with rfl | inRest
          · exact le_of_not_le (Bool.eq_false_iff.mpr follows)
          · exact before other inRest

theorem sort_cons (hit : Hit) (hits : List Hit) :
    sort (hit :: hits) = insert hit (sort hits) :=
  eq_of_perm (ordered_sort _) (ordered_insert (ordered_sort hits))
    ((sort_perm _).trans (((sort_perm hits).symm.cons hit).trans
      (insert_perm hit (sort hits)).symm))

/-- The hits in order, inserted one after the other. -/
def arranged (hits : List Hit) : List Hit :=
  hits.foldr insert []

theorem sort_eq_arranged (hits : List Hit) : sort hits = arranged hits := by
  induction hits with
  | nil => exact List.mergeSort_nil
  | cons hit rest inductionHypothesis =>
      rw [sort_cons, inductionHypothesis]
      rfl

theorem arranged_perm (hits : List Hit) : (arranged hits).Perm hits :=
  sort_eq_arranged hits ▸ sort_perm hits

end SmallWorld.Hit
