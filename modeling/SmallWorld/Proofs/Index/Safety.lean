import SmallWorld.Index.Session
import SmallWorld.Proofs.Index.Connectivity
import SmallWorld.Proofs.Index.Structure

/-!
# Sessions without faults

A request to a sound index is refused or has a result, but it never meets a
fault, and the index stays sound.  So no session meets one, provided that the
table of levels lists level 0 (`serveAll_guarded`).
-/

namespace SmallWorld

namespace Index

variable {σ : Type} {index : Index σ} {runs : Runs} {query : Coordinates}
  {entryPoint : PointId} {count width : Nat}

/-- The table of an index that has been created lists the probabilities of
its branching. -/
theorem tabulates_of_create {dimension : Nat} {settings : Settings}
    {source : σ}
    (created : (create dimension settings source).outcome = .ok index) :
    index.links.table.Tabulates
      (LevelTable.probability settings.branching.toUInt64.toFloat.log) := by
  rw [create, Traced.outcome_bind] at created
  cases validated : settings.validate dimension with
  | error refusal =>
      rw [validated] at created
      cases created
  | ok _ =>
      cases built : LevelTable.ofBranching settings.branching with
      | error refusal =>
          rw [validated, built] at created
          cases created
      | ok table =>
          cases empty : Cloud.empty dimension with
          | error refusal =>
              rw [validated, built, empty] at created
              cases created
          | ok cloud =>
              rw [validated, built, empty] at created
              cases created
              exact LevelTable.tabulates_of_ofBranching built

theorem entryFor_eq_ok_iff :
    index.entryFor query count width = .ok entryPoint ↔
      1 ≤ count ∧ 1 ≤ width ∧
        requireAcceptable index.dimension query = .ok () ∧
        index.entryPoint = some entryPoint := by
  rw [entryFor]
  by_cases noCount : count = 0
  · simp [noCount]
  · by_cases noWidth : width = 0
    · simp [noCount, noWidth]
    · have countPos : 1 ≤ count := Nat.one_le_iff_ne_zero.mpr noCount
      have widthPos : 1 ≤ width := Nat.one_le_iff_ne_zero.mpr noWidth
      rw [if_neg noCount, if_neg noWidth]
      cases requireAcceptable index.dimension query with
      | error refusal => simp [bind, Except.bind]
      | ok _ =>
          cases index.entryPoint <;>
            simp [bind, Except.bind, countPos, widthPos]

/-- A query is refused, or it fits and there is a point to start from. -/
theorem searchWithWork_outcome (index : Index σ) (query : Coordinates)
    (count width : Nat) :
    (∃ refusal, index.searchWithWork query count width =
        .error (.refused refusal)) ∨
      1 ≤ count ∧ 1 ≤ width ∧
        requireAcceptable index.dimension query = .ok () ∧
        ∃ entryPoint, index.entryPoint = some entryPoint := by
  cases found : index.entryFor query count width with
  | error refusal =>
      left
      rw [searchWithWork, found]
      exact ⟨refusal, rfl⟩
  | ok entryPoint =>
      obtain ⟨countPos, widthPos, accepted, entry⟩ :=
        entryFor_eq_ok_iff.mp found
      exact Or.inr ⟨countPos, widthPos, accepted, entryPoint, entry⟩

def Unfaulted {α : Type} (outcome : Except Failure α) : Prop :=
  ∀ fault, outcome ≠ .error (.faulted fault)

theorem settleCall_of_unfaulted {α : Type} {outcome : Except Failure α}
    (unfaulted : Unfaulted outcome) (index : Index σ) :
    index.settleCall (outcome.map fun _ => index) = .ok index := by
  cases outcome with
  | ok _ => rfl
  | error failure =>
      cases failure with
      | refused _ => rfl
      | faulted fault => exact absurd rfl (unfaulted fault)

namespace Sound

variable (sound : index.Sound runs)
include sound

theorem searchWithWork_unfaulted (query : Coordinates) (count width : Nat) :
    Unfaulted (index.searchWithWork query count width) := by
  intro fault faulted
  rcases index.searchWithWork_outcome query count width with
    ⟨refusal, refused⟩ | ⟨countPos, widthPos, accepted, _, entry⟩
  · rw [refused] at faulted
    cases faulted
  · have acceptable := requireAcceptable_eq_ok_iff.mp accepted
    rw [(sound.navigable acceptable entry).searchWithWork_eq acceptable
      countPos widthPos] at faulted
    cases faulted

theorem searchWidth_unfaulted (query : Coordinates) (count width : Nat) :
    Unfaulted (index.searchWidth query count width) := by
  intro fault faulted
  apply sound.searchWithWork_unfaulted query count width fault
  rw [searchWidth] at faulted
  cases searched : index.searchWithWork query count width with
  | ok _ =>
      rw [searched] at faulted
      cases faulted
  | error failure =>
      rw [searched] at faulted
      cases faulted
      rfl

theorem exists_connectivity (level : Nat) :
    ∃ counts, index.connectivity level = .ok counts := by
  cases entry : index.entryPoint with
  | none => exact ⟨(0, 0), by rw [connectivity, entry]⟩
  | some entryPoint =>
      by_cases below : level ≤ index.topLevel
      · obtain ⟨_, _, _, counted⟩ := sound.connectivity_eq entry below
        exact ⟨_, counted⟩
      · refine ⟨(0, 0), ?_⟩
        rw [connectivity, entry]
        exact if_pos (Nat.not_le.mp below)

end Sound

variable [UniformSource σ]

/-- A request meets no fault and leaves the index sound. -/
theorem Sound.serve_eq (sound : index.Sound runs)
    (listed : 0 < index.links.table.count) (request : Request) :
    ∃ next runs', index.serve request = .ok next ∧ next.Sound runs' ∧
      next.links.table = index.links.table := by
  have unchanged {result : Except Fault (Index σ)}
      (same : result = .ok index) :
      ∃ next runs', result = .ok next ∧ next.Sound runs' ∧
        next.links.table = index.links.table :=
    ⟨index, runs, same, sound, rfl⟩
  cases request with
  | add call => exact sound.apply_eq listed call
  | search query count =>
      exact unchanged (settleCall_of_unfaulted
        (sound.searchWidth_unfaulted query count _) index)
  | searchWidth query count width =>
      exact unchanged (settleCall_of_unfaulted
        (sound.searchWidth_unfaulted query count width) index)
  | searchWithWork query count width =>
      exact unchanged (settleCall_of_unfaulted
        (sound.searchWithWork_unfaulted query count width) index)
  | audit =>
      apply unchanged
      rw [serve, sound.audit_eq]
      rfl
  | connectivity level =>
      obtain ⟨counts, counted⟩ := sound.exists_connectivity level
      apply unchanged
      rw [serve, counted]
      rfl

theorem Sound.serveAll_eq (requests : List Request) {index : Index σ}
    {runs : Runs} (sound : index.Sound runs)
    (listed : 0 < index.links.table.count) :
    ∃ final runs', index.serveAll requests = .ok final ∧
      final.Sound runs' ∧ final.links.table = index.links.table := by
  induction requests generalizing index runs with
  | nil => exact ⟨index, runs, rfl, sound, rfl⟩
  | cons request rest inductionHypothesis =>
      obtain ⟨next, runs', served, sound', table⟩ :=
        sound.serve_eq listed request
      obtain ⟨final, finalRuns, ended, finalSound, finalTable⟩ :=
        inductionHypothesis sound' (table ▸ listed)
      refine ⟨final, finalRuns, ?_, finalSound, finalTable.trans table⟩
      rw [serveAll, served, ok_bind, ended]

/-- What keeps the parts of an index within their bounds: the levels fit the
table, the blocks are as many as the vectors, and no vector is compared with
another one that has not been checked. -/
structure Guarded (index : Index σ) : Prop where
  /-- Any number at all falls on a listed level. -/
  levelAt_lt : ∀ value,
    index.links.table.levelAt value < index.links.table.count
  /-- A listed level fits a byte. -/
  count_le : index.links.table.count ≤ UInt8.size
  level_lt : ∀ own ∈ index.links.levels, own < index.links.table.count
  size_eq : index.cloud.size = index.links.size
  width_pos : 1 ≤ index.settings.constructionWidth
  stored : ∀ vector ∈ index.cloud.vectors,
    requireAcceptable index.dimension vector = .ok ()
  insert_refused : ∀ vector,
    requireAcceptable index.dimension vector ≠ .ok () →
      ∃ refusal, (index.insert vector).outcome = .error (.refused refusal)
  insertAll_refused : ∀ vectors, ∀ vector ∈ vectors,
    requireAcceptable index.dimension vector ≠ .ok () →
      ∃ refusal, (index.insertAll vectors).outcome =
        .error (.refused refusal)
  search_refused : ∀ query count width,
    requireAcceptable index.dimension query ≠ .ok () →
      ∃ refusal, index.searchWithWork query count width =
        .error (.refused refusal)

  /-- Nor is there a search whose beam has no room. -/
  zero_refused : ∀ query count width, count = 0 ∨ width = 0 →
    ∃ refusal, index.searchWithWork query count width =
      .error (.refused refusal)

theorem Sound.guarded (sound : index.Sound runs)
    (listed : 0 < index.links.table.count)
    (few : index.links.table.count ≤ LevelTable.greatestCount) :
    index.Guarded where
  levelAt_lt := LevelTable.levelAt_lt_count listed
  count_le := few.trans (by decide)
  level_lt := by
    intro own member
    obtain ⟨id, found⟩ := Array.getElem?_of_mem member
    exact sound.represents.laid.lt_count ⟨own, found, Nat.le_refl own⟩
  size_eq := sound.size_eq
  width_pos := sound.settings.2.1
  stored := fun vector member =>
    requireAcceptable_eq_ok_iff.mpr (sound.cloud.acceptable vector member)
  insert_refused := by
    intro vector unacceptable
    rcases index.insert_outcome vector with refused | ⟨acceptable, _⟩
    · exact refused
    · exact absurd (requireAcceptable_eq_ok_iff.mpr acceptable) unacceptable
  insertAll_refused := by
    intro vectors vector member unacceptable
    rcases index.insertAll_outcome vectors with refused | ⟨acceptable, _⟩
    · exact refused
    · exact absurd (requireAcceptable_eq_ok_iff.mpr
        (acceptable vector member)) unacceptable
  search_refused := by
    intro query count width unacceptable
    rcases index.searchWithWork_outcome query count width with
      refused | ⟨_, _, accepted, _⟩
    · exact refused
    · exact absurd accepted unacceptable
  zero_refused := by
    intro query count width zero
    rcases index.searchWithWork_outcome query count width with
      refused | ⟨countPos, widthPos, _⟩
    · exact refused
    · omega

/-- No session with an index that has been created meets a fault, if level 0
is not too improbable to be listed. -/
theorem serveAll_guarded {start : Index σ} (fresh : start.IsFresh)
    {probabilityOf : Nat → Float}
    (tabulates : start.links.table.Tabulates probabilityOf)
    (first : ¬ probabilityOf 0 < LevelTable.leastProbability)
    (requests : List Request) :
    ∃ final, start.serveAll requests = .ok final ∧ final.Guarded := by
  have listed := tabulates.count_pos first
  obtain ⟨final, runs, ended, sound, table⟩ :=
    (fresh.sound fun _ _ => []).serveAll_eq requests listed
  exact ⟨final, ended, sound.guarded (table ▸ listed)
    (table ▸ tabulates.count_le)⟩

def lineProbability : Nat → Float
  | 0 => .ofBits 0x3fe0000000000000
  | 1 => .ofBits 0x3fd0000000000000
  | _ => .ofBits 0

theorem lineStart_tabulates :
    lineStart.links.table.Tabulates lineProbability := by
  rw [LevelTable.Tabulates]
  rfl

theorem line_guarded : lineStart.IsFresh ∧
    lineStart.links.table.Tabulates lineProbability ∧
    ¬ lineProbability 0 < LevelTable.leastProbability ∧
    ∃ final, lineStart.serveAll
        [.search [Scalar.zero] 1, .add (.insertAll linePoints),
          .searchWidth [] 0 0, .add (.insert []),
          .searchWithWork [Scalar.one] 2 3, .audit, .connectivity 7] =
          .ok final ∧
      final.Guarded := by
  have first : ¬ lineProbability 0 < LevelTable.leastProbability := by
    decide +kernel
  exact ⟨lineStart_isFresh, lineStart_tabulates, first,
    serveAll_guarded lineStart_isFresh lineStart_tabulates first _⟩

end Index

end SmallWorld
