import SmallWorld.Index.Query
import SmallWorld.Proofs.Index.Auditing

/-!
# What a silent audit says about the entry point

An audit compares the level of the entry point with the top level and does no
more for the root of searches (`silent_iff`).  It says nothing if there is no
entry point at all, or if the entry point and the top level are both too low
(`silent_tampered`).
-/

namespace SmallWorld.Index

variable {σ : Type}

/-- Searches start on the top level, and there is no point above it. -/
def Rooted (index : Index σ) : Prop :=
  (∃ entryPoint, index.entryPoint = some entryPoint ∧
    index.links.levels[entryPoint]? = some index.topLevel) ∧
    ∀ own ∈ index.links.levels, own ≤ index.topLevel

variable {index : Index σ}

/-- The root of an index with a silent audit can be moved to any point and its
level, and taken away, without a word of the audit. -/
theorem silent_tampered (framed : index.links.Framed)
    (inside : ∀ entryPoint,
      index.entryPoint = some entryPoint → entryPoint < index.links.size)
    (silent : index.audit = .ok []) {entry : Option PointId} {topLevel : Nat}
    (onTop : ∀ entryPoint, entry = some entryPoint →
      index.links.levels[entryPoint]? = some topLevel) :
    ((index.tamperEntry entry).tamperTopLevel topLevel).audit = .ok [] := by
  have orderly := ((audit_eq_nil_iff framed inside).mp silent).1
  refine (audit_eq_nil_iff ?_ fun entryPoint moved => ?_).mpr ⟨?_, ?_⟩
  · exact framed
  · exact (Array.getElem?_eq_some_iff.mp (onTop entryPoint moved)).1
  · exact orderly
  · exact onTop

/-- An audit is silent exactly if all blocks are orderly and the entry point,
if there is one, is on the top level.  A root for all searches takes an entry
point and that no point is above the top level besides. -/
theorem silent_iff (framed : index.links.Framed)
    (inside : ∀ entryPoint,
      index.entryPoint = some entryPoint → entryPoint < index.links.size) :
    (index.audit = .ok [] ↔
      (∀ id < index.links.size, index.links.Orderly id) ∧
        ∀ entryPoint, index.entryPoint = some entryPoint →
          index.links.levels[entryPoint]? = some index.topLevel) ∧
      (index.audit = .ok [] →
        (index.Rooted ↔ index.entryPoint ≠ none ∧
          ∀ own ∈ index.links.levels, own ≤ index.topLevel)) := by
  have silent := audit_eq_nil_iff framed inside
  refine ⟨silent, fun quiet => and_congr_left' ?_⟩
  constructor
  · rintro ⟨entryPoint, entry, _⟩ missing
    cases entry.symm.trans missing
  · intro present
    obtain ⟨entryPoint, entry⟩ := Option.ne_none_iff_exists'.mp present
    exact ⟨entryPoint, entry, (silent.mp quiet).2 entryPoint entry⟩

theorem lopsided_framed : lopsided.links.Framed := by decide

theorem lopsided_inside : ∀ entryPoint,
    lopsided.entryPoint = some entryPoint →
      entryPoint < lopsided.links.size := by
  rintro _ ⟨⟩
  decide

theorem lopsided_silent : lopsided.links.Framed ∧
    (∀ entryPoint, lopsided.entryPoint = some entryPoint →
      entryPoint < lopsided.links.size) ∧
    (lopsided.audit = .ok [] ↔
      (∀ id < lopsided.links.size, lopsided.links.Orderly id) ∧
        ∀ entryPoint, lopsided.entryPoint = some entryPoint →
          lopsided.links.levels[entryPoint]? = some lopsided.topLevel) ∧
    (lopsided.audit = .ok [] →
      (lopsided.Rooted ↔ lopsided.entryPoint ≠ none ∧
        ∀ own ∈ lopsided.links.levels, own ≤ lopsided.topLevel)) :=
  ⟨lopsided_framed, lopsided_inside,
    silent_iff lopsided_framed lopsided_inside⟩

/-- An audit is silent about a point above the top level, and about points
without an entry point, which no search finds. -/
theorem lopsided_unrooted : lopsided.links.size = 2 ∧
    lopsided.links.Framed ∧ lopsided.entryPoint = some 1 ∧
    lopsided.audit = .ok [] ∧ ¬ lopsided.Rooted ∧
    (lopsided.tamperEntry none).audit = .ok [] ∧
    (lopsided.tamperEntry none).search [.ofBits 0] 1 =
      .error (.refused .noPoints) := by
  refine ⟨rfl, lopsided_framed, rfl, rfl, fun rooted => ?_, ?_, ?_⟩
  · have above : 1 ≤ lopsided.topLevel :=
      rooted.2 1 (Array.mem_of_getElem? (show _[0]? = some 1 from rfl))
    exact Nat.not_succ_le_zero 0 above
  · change ((lopsided.tamperEntry none).tamperTopLevel 0).audit = _
    exact silent_tampered lopsided_framed lopsided_inside rfl
      fun _ missing => nomatch missing
  · have refused : (lopsided.tamperEntry none).entryFor [.ofBits 0] 1 1 =
        .error .noPoints := by decide +kernel
    change (lopsided.tamperEntry none).searchWidth [.ofBits 0] 1 1 = _
    rw [searchWidth, searchWithWork, refused]
    rfl

end SmallWorld.Index
