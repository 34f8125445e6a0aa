import SmallWorld.Proofs.Index.Recalling

/-!
# The best edges stay

Runs forget: a full run that is offered a neighbour selects its neighbours
anew, and what it drops is lost.  The nearest point that a run has ever been
offered is not among that.  Noting all offers while points are inserted
(`Noted`) shows that after any calls each run lists, for every point it was
ever offered, one that is as good (`Index.run_keeps_best`).
-/

namespace SmallWorld

namespace Cloud

variable {cloud : Cloud} {owner first second third best : PointId}

/-- The first of two points comes before the second for an owner: it is
nearer, or equally near and has no higher number. -/
def Precedes (cloud : Cloud) (owner first second : PointId) : Prop :=
  ∃ near far, cloud.distanceBetween owner first = .ok near ∧
    cloud.distanceBetween owner second = .ok far ∧
      (Hit.mk near first).le ⟨far, second⟩ = true

/-- A point is the best of some points for an owner. -/
def IsBest (cloud : Cloud) (owner : PointId) (among : PointId → Prop)
    (best : PointId) : Prop :=
  among best ∧ ∀ other, among other → cloud.Precedes owner best other

theorem Precedes.trans (early : cloud.Precedes owner first second)
    (late : cloud.Precedes owner second third) :
    cloud.Precedes owner first third := by
  obtain ⟨near, middle, nearEq, middleEq, firstLe⟩ := early
  obtain ⟨middle', far, middleEq', farEq, secondLe⟩ := late
  cases middleEq.symm.trans middleEq'
  exact ⟨near, far, nearEq, farEq, Hit.le_trans firstLe secondLe⟩

theorem Precedes.antisymm (early : cloud.Precedes owner first second)
    (late : cloud.Precedes owner second first) : first = second := by
  obtain ⟨near, far, nearEq, farEq, firstLe⟩ := early
  obtain ⟨far', near', farEq', nearEq', secondLe⟩ := late
  cases nearEq.symm.trans nearEq'
  cases farEq.symm.trans farEq'
  exact congrArg Hit.id (Hit.le_antisymm firstLe secondLe)

/-- The best of some points is the best of more points if for each of these
there is a point among the former that is as good. -/
theorem isBest_iff {some more : PointId → Prop}
    (within : ∀ id, some id → more id)
    (asGood : ∀ other, more other →
      ∃ kept, some kept ∧ cloud.Precedes owner kept other) :
    cloud.IsBest owner some best ↔ cloud.IsBest owner more best := by
  constructor
  · rintro ⟨among, first⟩
    refine ⟨within best among, fun other member => ?_⟩
    obtain ⟨kept, keptAmong, nearer⟩ := asGood other member
    exact (first kept keptAmong).trans nearer
  · rintro ⟨among, first⟩
    obtain ⟨kept, keptAmong, nearer⟩ := asGood best among
    have same : kept = best :=
      nearer.antisymm (first kept (within kept keptAmong))
    rw [same] at keptAmong
    exact ⟨keptAmong, fun other member => first other (within other member)⟩

theorem IsSound.precedes (sound : cloud.IsSound)
    (ownerInside : owner < cloud.size) (firstInside : first < cloud.size)
    (secondInside : second < cloud.size)
    (nearer : (Distances.hit cloud.apart owner first).le
      (Distances.hit cloud.apart owner second) = true) :
    cloud.Precedes owner first second :=
  ⟨_, _, sound.distanceBetween_eq ownerInside firstInside,
    sound.distanceBetween_eq ownerInside secondInside, nearer⟩

end Cloud

namespace Noted

variable {σ : Type} {noted : Noted (Index σ)} {runs : Runs} {level : Nat}
  {id : PointId}

def Offered (noted : Noted (Index σ)) (owner : PointId) (level : Nat)
    (neighbor : PointId) : Prop :=
  ⟨owner, neighbor, level⟩ ∈ noted.offers ∧ neighbor ≠ owner

/-- A run lists points that it was offered, and for every one that it was
offered a point that is as good.  So the best of those it lists is the best of
all that it was ever offered. -/
structure KeepsBest (noted : Noted (Index σ)) (owner : PointId) (level : Nat)
    (run : List PointId) : Prop where
  offered : ∀ neighbor ∈ run, noted.Offered owner level neighbor
  as_good : ∀ neighbor, noted.Offered owner level neighbor →
    ∃ kept ∈ run, noted.value.cloud.Precedes owner kept neighbor
  best_iff : ∀ best, noted.value.cloud.IsBest owner (· ∈ run) best ↔
    noted.value.cloud.IsBest owner (noted.Offered owner level) best

theorem Keeps.keepsBest (keeps : noted.Keeps runs)
    (reaches : noted.value.links.Reaches level id) :
    noted.KeepsBest id level (runs id level) := by
  obtain ⟨sound, recalls⟩ := keeps
  have inside : ∀ {level id}, noted.value.links.Reaches level id →
      id < noted.value.cloud.size := sound.lt_size
  have offered : ∀ neighbor ∈ runs id level,
      noted.Offered id level neighbor := fun neighbor member =>
    ⟨recalls.offered reaches member, sound.proper.ne reaches member⟩
  have asGood : ∀ neighbor, noted.Offered id level neighbor →
      ∃ kept ∈ runs id level,
        noted.value.cloud.Precedes id kept neighbor := by
    rintro neighbor ⟨member, other⟩
    obtain ⟨kept, listed, nearer⟩ := recalls.best _ member other
    exact ⟨kept, listed, sound.cloud.precedes (inside reaches)
      (inside (sound.proper.reaches reaches listed))
      (inside (recalls.inside _ member).2) nearer⟩
  exact ⟨offered, asGood, fun best => Cloud.isBest_iff offered asGood⟩

end Noted

namespace Index

variable {σ : Type}

theorem IsFresh.keeps {start : Index σ} (fresh : start.IsFresh) :
    (Noted.mk start []).Keeps fun _ _ => [] where
  sound := fresh.sound _
  recalls :=
    { inside := fun _ member => nomatch member
      best := fun _ member => nomatch member
      offered := fun _ member => nomatch member }

variable [UniformSource σ]

/-- The best edge that a run is ever offered stays.  After any calls each run
lists, for every point that it was offered in their course, one that is at
least as near, the lower number deciding between equally near ones; and
further calls leave no run with a worse best neighbour.  Noting the offers
does not change what the calls do. -/
theorem run_keeps_best {start : Index σ} (fresh : start.IsFresh)
    (calls : List Call) :
    (∀ final, start.run calls = .ok final → ∃ offers,
      (Noted.mk start []).run calls = .ok ⟨final, offers⟩ ∧
      ∀ {owner own level}, final.levelOf? owner = some own → level ≤ own →
        ∃ run, final.neighbors? owner level = .ok (some run) ∧
          (Noted.mk final offers).KeepsBest owner level run ∧
          ∀ more later, final.run more = .ok later →
            ∃ run', later.neighbors? owner level = .ok (some run') ∧
              ∀ known ∈ run, ∃ kept ∈ run',
                later.cloud.Precedes owner kept known) ∧
    (0 < start.links.table.count →
      ∃ final, start.run calls = .ok final) := by
  refine ⟨fun final ran => ?_, (run_eq (motive := fun _ _ => True)
    (fun _ _ _ _ _ _ => trivial) (fresh.sound fun _ _ => []) trivial
    calls).2⟩
  obtain ⟨offers, noted⟩ :=
    Noted.exists_run ⟨start, []⟩ ran
  obtain ⟨runs, keeps, _⟩ := fresh.keeps.run noted
  refine ⟨offers, noted, ?_⟩
  intro owner own level found below
  have reaches : final.links.Reaches level owner := ⟨own, found, below⟩
  have keepsBest := keeps.keepsBest reaches
  refine ⟨runs owner level, keeps.sound.neighbors?_eq reaches, keepsBest, ?_⟩
  intro more later further
  obtain ⟨offers', noted'⟩ :=
    Noted.exists_run ⟨final, offers⟩ further
  obtain ⟨runs', keeps', before⟩ := keeps.run noted'
  have reaches' := before.reaches reaches
  refine ⟨runs' owner level, keeps'.sound.neighbors?_eq reaches', ?_⟩
  intro known listed
  obtain ⟨member, other⟩ := keepsBest.offered known listed
  exact (keeps'.keepsBest reaches').as_good known
    ⟨before.offers.subset member, other⟩

theorem line_keeps_best : lineStart.IsFresh ∧
    0 < lineStart.links.table.count ∧
    ∃ final offers,
      lineStart.run [.insertAll linePoints, .insert []] = .ok final ∧
      (Noted.mk lineStart []).run [.insertAll linePoints, .insert []] =
        .ok ⟨final, offers⟩ ∧
      ∀ {owner own level}, final.levelOf? owner = some own → level ≤ own →
        ∃ run, final.neighbors? owner level = .ok (some run) ∧
          (Noted.mk final offers).KeepsBest owner level run ∧
          ∀ more later, final.run more = .ok later →
            ∃ run', later.neighbors? owner level = .ok (some run') ∧
              ∀ known ∈ run, ∃ kept ∈ run',
                later.cloud.Precedes owner kept known := by
  obtain ⟨partly, totally⟩ := run_keeps_best lineStart_isFresh
    [.insertAll linePoints, .insert []]
  obtain ⟨final, ended⟩ := totally (by decide)
  obtain ⟨offers, noted, keeps⟩ := partly final ended
  exact ⟨lineStart_isFresh, by decide, final, offers, ended, noted, keeps⟩

end Index

end SmallWorld
