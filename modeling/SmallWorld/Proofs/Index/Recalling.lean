import SmallWorld.Proofs.Index.History
import SmallWorld.Proofs.Index.Planning
import SmallWorld.Proofs.Links.BestOffers

/-!
# Runs recall their offers

When points are inserted with notes, the runs of the index recall what is
noted (`Noted.Keeps`): this holds level by level while a point is linked
(`Noted.connectLevels_eq`), and from one point to the next, whatever calls
insert them (`Noted.Keeps.run`).
-/

namespace SmallWorld

namespace Noted

section Links

variable {links : Links} {runs : Runs} {cloud : Cloud} {vector : Coordinates}
  {level : Nat} {placement : Placement}
  (fits : placement.Fits links cloud vector)
include fits

/-- Linking at one level is noted as two offers for each selected point. -/
theorem connectLevel_eq (idReaches : links.Reaches level placement.id)
    {slots : Array PointId} {runs : Runs}
    (represents : { links with slots }.Represents runs)
    (proper : runs.Proper links.Reaches) {start : Hit}
    (startReaches : links.Reaches level start.id)
    (startMarked : start.distance = placement.distance start.id)
    (offers : List Offer) :
    ∃ slots', (connectLevel cloud placement.width placement.id vector level
        start ⟨{ links with slots }, offers⟩).outcome =
          .ok (placement.nextStart runs level start,
            ⟨{ links with slots := slots' },
              offers ++ Offer.between placement.id level
                (placement.selected runs level start)⟩) ∧
      { links with slots := slots' }.Represents
        (placement.linkLevel runs level start) := by
  obtain ⟨beam, searched, kept, capacity, chosen⟩ := represents.selected_eq
    fits idReaches proper startReaches startMarked
  obtain ⟨slots', connected, represents'⟩ := Links.Represents.connect_eq
    fits.measured idReaches
    (Links.startsAmong fits proper startReaches startMarked).selected_inside
    represents proper
  rw [fits.capacity_eq] at represents'
  refine ⟨slots', ?_, represents'⟩
  simp only [connectLevel, Traced.outcome_bind, searched,
    Traced.outcome_lift_fault_ok, ok_bind, capacity, kept, chosen, connect_eq,
    Traced.outcome_map, connected]
  rfl

/-- Linking at all levels from one down, the runs go on recalling their
offers. -/
theorem connectLevels_eq (room : ∀ level, placement.capacity level ≠ 0)
    (idReaches : links.Reaches level placement.id) (slots : Array PointId)
    {runs : Runs} (represents : { links with slots }.Represents runs)
    (proper : runs.Proper links.Reaches) {offers : List Offer}
    (recalls : runs.Recalls placement.apart links.Reaches offers)
    {start : Hit} (startReaches : links.Reaches level start.id)
    (startMarked : start.distance = placement.distance start.id) :
    ∃ slots' offers',
      (connectLevels cloud placement.width placement.id vector level start
        ⟨{ links with slots }, offers⟩).outcome =
          .ok ⟨{ links with slots := slots' }, offers'⟩ ∧
      offers <+: offers' ∧
      (placement.linkLevels level start runs).Recalls placement.apart
        links.Reaches offers' := by
  induction level generalizing start runs slots offers with
  | zero =>
      have among := Links.startsAmong fits proper startReaches startMarked
      obtain ⟨slots', linked, _⟩ := connectLevel_eq fits idReaches represents
        proper startReaches startMarked offers
      refine ⟨slots', _, ?_, List.prefix_append _ _,
        recalls.connect (room 0) idReaches among.selected_inside proper⟩
      simp only [connectLevels, Traced.outcome_bind, linked, ok_bind,
        Traced.outcome_pure]
  | succ level inductionHypothesis =>
      have among := Links.startsAmong fits proper startReaches startMarked
      obtain ⟨first, linked, represents'⟩ := connectLevel_eq fits idReaches
        represents proper startReaches startMarked offers
      obtain ⟨nextReaches, nextMarked⟩ := among.nextStart_inside
      obtain ⟨slots', offers', further, longer, recalls'⟩ :=
        inductionHypothesis (idReaches.of_le (Nat.le_succ _)) _ represents'
          (Links.proper_linkLevel fits idReaches proper startReaches
            startMarked)
          (recalls.connect (room (level + 1)) idReaches among.selected_inside
            proper)
          (nextReaches.of_le (Nat.le_succ _)) nextMarked
      refine ⟨slots', offers', ?_, (List.prefix_append _ _).trans longer,
        recalls'⟩
      simp only [connectLevels, Traced.outcome_bind, linked, ok_bind, further]

end Links

section Index

variable {σ : Type}

/-- The index is sound with some runs, and these recall the offers noted. -/
structure Keeps (noted : Noted (Index σ)) (runs : Runs) : Prop where
  sound : noted.value.Sound runs
  recalls : runs.Recalls noted.value.cloud.apart noted.value.links.Reaches
    noted.offers

/-- What is noted is only added to, and points stay on their levels. -/
structure Before (earlier later : Noted (Index σ)) : Prop where
  dimension_eq : later.value.cloud.dimension = earlier.value.cloud.dimension
  offers : earlier.offers <+: later.offers
  reaches : ∀ {level id}, earlier.value.links.Reaches level id →
    later.value.links.Reaches level id

variable {noted next : Noted (Index σ)} {runs : Runs} {vector : Coordinates}
  {vectors : List Coordinates} {id : PointId}

theorem Before.refl (noted : Noted (Index σ)) : noted.Before noted where
  dimension_eq := rfl
  offers := List.prefix_refl _
  reaches := fun reaches => reaches

theorem Before.trans {first second third : Noted (Index σ)}
    (earlier : first.Before second) (later : second.Before third) :
    first.Before third where
  dimension_eq := later.dimension_eq.trans earlier.dimension_eq
  offers := earlier.offers.trans later.offers
  reaches := fun reaches => later.reaches (earlier.reaches reaches)

/-- A further point without neighbours has been offered nothing. -/
theorem Keeps.recalls_clear (keeps : noted.Keeps runs)
    (vector : Coordinates) (level : Nat) :
    (runs.clear noted.value.size).Recalls
      (noted.value.placement vector).apart
      (noted.value.links.extended level).Reaches noted.offers := by
  obtain ⟨sound, recalls⟩ := keeps
  have old : ∀ {level' id}, noted.value.links.Reaches level' id →
      (noted.value.links.extended level).Reaches level' id := fun reaches =>
    Links.reaches_extended_iff.mpr (Or.inl reaches)
  constructor
  · intro offer member
    obtain ⟨ownerReaches, neighborReaches⟩ := recalls.inside offer member
    exact ⟨old ownerReaches, old neighborReaches⟩
  · intro offer member other
    obtain ⟨ownerReaches, neighborReaches⟩ := recalls.inside offer member
    obtain ⟨kept, listed, nearer⟩ := recalls.best offer member other
    have same : ∀ {id}, noted.value.links.Reaches offer.level id →
        (noted.value.placement vector).apart.hit offer.owner id =
          Distances.hit noted.value.cloud.apart offer.owner id :=
      fun reaches => congrArg (Hit.mk · _) (Cloud.apart_push_of_lt
        (sound.lt_size ownerReaches) (sound.lt_size reaches) vector)
    rw [Index.clear_of_reaches sound.size_eq ownerReaches,
      same neighborReaches]
    refine ⟨kept, listed, ?_⟩
    rw [same (sound.proper.reaches ownerReaches listed)]
    exact nearer
  · intro id level' neighbor reaches listed
    rcases Links.reaches_extended_iff.mp reaches with before | ⟨rfl, _⟩
    · rw [Index.clear_of_reaches sound.size_eq before] at listed
      exact recalls.offered before listed
    · rw [Index.size, sound.size_eq, Runs.clear, if_pos rfl] at listed
      cases listed

variable [UniformSource σ]

section Place

variable (keeps : noted.Keeps runs)
  (acceptable : Acceptable noted.value.cloud.dimension vector)
  (room : noted.value.size < greatestSize)
include keeps acceptable room

/-- What is noted while a vector is placed is recalled by the runs. -/
private theorem Keeps.offers_place
    (listed : 0 < noted.value.links.table.count) :
    ∃ offers, (noted.place vector).outcome.map
        (fun result => result.2.offers) = .ok offers ∧
      noted.offers <+: offers ∧
      (noted.value.grown runs vector
          (noted.value.links.table.draw noted.value.source).1).Recalls
        (noted.value.placement vector).apart
        (noted.value.links.extended
          (noted.value.links.table.draw noted.value.source).1).Reaches
        offers := by
  have sound := keeps.sound
  have drawn := LevelTable.draw_lt_count listed noted.value.source
  cases draw : noted.value.links.table.draw noted.value.source with
  | mk level source =>
      rw [draw] at drawn
      have cleared := keeps.recalls_clear vector level
      have allocated := Links.allocate_eq
        (show noted.value.links.size < greatestSize from
          sound.size_eq ▸ room) drawn
      cases entry : noted.value.entryPoint with
      | none =>
          rw [Index.grown_of_none entry]
          refine ⟨noted.offers, ?_, List.prefix_refl _, cleared⟩
          simp only [place, Traced.outcome_bind, Index.push_eq room,
            Traced.outcome_lift_refusal_ok, ok_bind, draw, allocated,
            Traced.outcome_lift_failure, Traced.outcome_record, entry,
            Traced.outcome_pure, Except.map]
      | some entryPoint =>
          have fits := sound.fits acceptable level
          obtain ⟨start, work, descended, startReaches, startMarked, grown⟩ :=
            sound.descend_extended acceptable room drawn entry
          obtain ⟨slots, offers, linked, longer, recalls⟩ :=
            connectLevels_eq fits
              (fun level => Nat.ne_of_gt (sound.runLength_pos level))
              (sound.extended_reaches_size level)
              (noted.value.links.extended level).slots
              (sound.represents_clear room drawn) (sound.proper_clear level)
              cleared startReaches startMarked
          -- The same in the words of the index, for `place` to be evaluated.
          have linked' : (connectLevels { noted.value.cloud with
                vectors := noted.value.cloud.vectors.push vector }
              noted.value.settings.constructionWidth noted.value.size vector
              (min level noted.value.topLevel) start
              ⟨noted.value.links.extended level, noted.offers⟩).outcome =
                .ok ⟨{ noted.value.links.extended level with slots }, offers⟩ :=
            linked
          have measured := fits.distanceTo_eq
            (Links.reaches_extended_iff.mpr
              (Or.inl ((sound.entry_reaches entry).of_le (Nat.zero_le _))))
          rw [grown]
          refine ⟨offers, ?_, longer, recalls⟩
          simp only [place, Traced.outcome_bind, Index.push_eq room,
            Traced.outcome_lift_refusal_ok, ok_bind, draw, allocated,
            Traced.outcome_lift_failure, Traced.outcome_record, entry,
            measured, Traced.outcome_lift_fault_ok, descended, linked']
          split <;> rfl

/-- A vector that is placed leaves the runs recalling their offers. -/
theorem Keeps.place (placed : (noted.place vector).outcome = .ok (id, next)) :
    ∃ runs', next.Keeps runs' ∧ noted.Before next ∧
      next.value.size = noted.value.size + 1 := by
  have sound := keeps.sound
  have same : (noted.value.place vector).outcome = .ok (id, next.value) := by
    rw [← value_place, Traced.outcome_map, placed]
    rfl
  by_cases listed : 0 < noted.value.links.table.count
  · obtain ⟨next', placed', gains, sound'⟩ :=
      sound.place acceptable room listed
    obtain ⟨offers, noted', longer, recalls⟩ :=
      keeps.offers_place acceptable room listed
    cases same.symm.trans placed'
    rw [placed] at noted'
    cases noted'
    have reaches : (noted.value.links.extended
        (noted.value.links.table.draw noted.value.source).1).Reaches =
          next.value.links.Reaches := by
      funext level id
      simp only [Links.Reaches, Links.extended, gains.levels_eq]
    rw [reaches, gains.apart_eq] at recalls
    refine ⟨_, ⟨sound', recalls⟩, ⟨?_, longer, ?_⟩, gains.size_eq⟩
    · rw [gains.cloud_eq]
    · intro level id old
      exact gains.reaches_of_reaches sound old
  · rw [Index.place_of_unlisted sound room (by omega)] at same
    cases same

end Place

theorem Keeps.placeAll (keeps : noted.Keeps runs)
    (acceptable : ∀ vector ∈ vectors,
      Acceptable noted.value.cloud.dimension vector)
    (room : vectors.length ≤ greatestSize - noted.value.size)
    (placed : (placeAll vectors noted).outcome = .ok next) :
    ∃ runs', next.Keeps runs' ∧ noted.Before next := by
  induction vectors generalizing noted runs with
  | nil =>
      cases placed
      exact ⟨runs, keeps, Before.refl _⟩
  | cons vector rest inductionHypothesis =>
      rw [List.length_cons] at room
      rw [Noted.placeAll, Traced.outcome_bind, bind_eq_ok_iff] at placed
      obtain ⟨⟨id, middle⟩, first, later⟩ := placed
      obtain ⟨runs', keeps', before, size⟩ := keeps.place
        (acceptable vector List.mem_cons_self) (by omega) first
      obtain ⟨runs'', keeps'', before'⟩ := inductionHypothesis keeps'
        (fun vector member => before.dimension_eq ▸
          acceptable vector (List.mem_cons_of_mem _ member))
        (by omega) later
      exact ⟨runs'', keeps'', before.trans before'⟩

omit [UniformSource σ] in
theorem eq_of_settleCall {α : Type} {outcome : Except Failure α}
    {result : α → Noted (Index σ)}
    (settled : noted.settleCall (outcome.map result) = .ok next) :
    next = noted ∨ ∃ value, outcome = .ok value ∧ result value = next := by
  cases outcome with
  | ok value =>
      cases settled
      exact Or.inr ⟨value, rfl, rfl⟩
  | error failure =>
      cases failure with
      | refused refusal =>
          cases settled
          exact Or.inl rfl
      | faulted fault => cases settled

/-- A call goes through if it is refused, or accepted and carried out. -/
theorem Keeps.apply (keeps : noted.Keeps runs) {call : Call}
    (applied : noted.apply call = .ok next) :
    ∃ runs', next.Keeps runs' ∧ noted.Before next := by
  cases call with
  | insert vector =>
      rcases eq_of_settleCall applied with rfl | ⟨⟨id, _⟩, inserted, rfl⟩
      · exact ⟨runs, keeps, Before.refl _⟩
      · simp only [Noted.insert, Traced.outcome_bind, bind_eq_ok_iff,
          Traced.outcome_lift_refusal_eq_ok_iff] at inserted
        obtain ⟨_, accepted, _, roomy, placed⟩ := inserted
        have room := requireRoom_eq_ok_iff.mp roomy
        obtain ⟨runs', keeps', before, _⟩ := keeps.place
          (requireAcceptable_eq_ok_iff.mp accepted) (by omega) placed
        exact ⟨runs', keeps', before⟩
  | insertAll vectors =>
      rcases eq_of_settleCall applied with rfl | ⟨⟨_, _, _⟩, inserted, rfl⟩
      · exact ⟨runs, keeps, Before.refl _⟩
      · simp only [Noted.insertAll, Traced.outcome_bind, bind_eq_ok_iff,
          Traced.outcome_lift_refusal_eq_ok_iff] at inserted
        obtain ⟨_, accepted, _, roomy, final, placed, returned⟩ := inserted
        cases returned
        exact keeps.placeAll (requireAllAcceptable_eq_ok_iff.mp accepted)
          (requireRoom_eq_ok_iff.mp roomy) placed

theorem Keeps.run (keeps : noted.Keeps runs) {calls : List Call}
    (ran : noted.run calls = .ok next) :
    ∃ runs', next.Keeps runs' ∧ noted.Before next := by
  induction calls generalizing noted runs with
  | nil =>
      cases ran
      exact ⟨runs, keeps, Before.refl _⟩
  | cons call rest inductionHypothesis =>
      rw [Noted.run, bind_eq_ok_iff] at ran
      obtain ⟨middle, applied, later⟩ := ran
      obtain ⟨runs', keeps', before⟩ := keeps.apply applied
      obtain ⟨runs'', keeps'', before'⟩ := inductionHypothesis keeps' later
      exact ⟨runs'', keeps'', before.trans before'⟩

end Index

end Noted

end SmallWorld
