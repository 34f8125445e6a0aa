import SmallWorld.Index.Audit
import SmallWorld.Index.Tampering
import SmallWorld.Proofs.Links.Blocks

/-!
# What an audit finds in an index

An audit goes on after each violation, so it finds all of them, block by block,
and compares the level of the entry point with the top level at last
(`Index.Audited`).  The slots may hold anything.
-/

namespace SmallWorld.Index

variable {σ : Type}

/-- Violations report an entry point that is not on the top level. -/
def EntryReported (index : Index σ) (violations : List Violation) : Prop :=
  ∀ entryPoint level topLevel,
    violations.count (.entryLevel entryPoint level topLevel) =
      if (index.entryPoint = some entryPoint ∧
          index.links.levels[entryPoint]? = some level ∧
          index.topLevel = topLevel) ∧ level ≠ topLevel then
        1
      else
        0

structure Audited (index : Index σ) (violations : List Violation) : Prop where
  block : ∀ id, index.links.BlockReported id violations
  entry : index.EntryReported violations

variable {index : Index σ} {violations : List Violation}

theorem auditEntry_eq (inside : ∀ entryPoint,
      index.entryPoint = some entryPoint → entryPoint < index.links.size) :
    ∃ violations, index.auditEntry = .ok violations ∧
      index.EntryReported violations ∧
      ∀ violation ∈ violations, violation.block? = none := by
  unfold auditEntry
  cases entry : index.entryPoint with
  | none => exact ⟨[], rfl, fun _ _ _ => by simp [entry], by simp⟩
  | some entryPoint =>
      obtain ⟨level, found⟩ : ∃ level,
          index.links.levels[entryPoint]? = some level :=
        ⟨_, Array.getElem?_eq_getElem (inside entryPoint entry)⟩
      by_cases onTop : level = index.topLevel
      · refine ⟨[], ?_, fun other level' topLevel => ?_, by simp⟩
        · simp [Links.level, found, onTop, pure, Except.pure]
        · refine (if_neg ?_).symm
          rintro ⟨⟨same, found', rfl⟩, off⟩
          cases entry.symm.trans same
          cases found.symm.trans found'
          exact off onTop
      · refine ⟨[.entryLevel entryPoint level index.topLevel], ?_,
          fun other level' topLevel => ?_, by simp [Violation.block?]⟩
        · simp [Links.level, found, onTop, pure, Except.pure]
        · rw [List.count_singleton, entry]
          refine if_congr ?_ rfl rfl
          simp only [beq_iff_eq, Violation.entryLevel.injEq, Option.some.injEq]
          constructor
          · rintro ⟨rfl, rfl, rfl⟩
            exact ⟨⟨rfl, found, rfl⟩, onTop⟩
          · rintro ⟨⟨rfl, found', rfl⟩, _⟩
            exact ⟨rfl, Option.some.inj (found.symm.trans found'), rfl⟩

theorem audit_eq (framed : index.links.Framed)
    (inside : ∀ entryPoint,
      index.entryPoint = some entryPoint → entryPoint < index.links.size) :
    ∃ violations, index.audit = .ok violations ∧ index.Audited violations := by
  obtain ⟨entry, entryAudited, entryReported, unblocked⟩ :=
    auditEntry_eq inside
  obtain ⟨lists, blocksAudited, blockReported, blocked⟩ :=
    framed.auditBlocks_eq
  have opened : index.audit = .ok (lists.flatten ++ entry) := by
    unfold audit
    rw [blocksAudited, entryAudited]
    rfl
  refine ⟨_, opened, fun id => ?_, fun entryPoint level topLevel => ?_⟩
  · refine (blockReported id).congr fun violation here => ?_
    have absent : violation ∉ entry := fun present =>
      nomatch here.symm.trans (unblocked violation present)
    rw [List.count_append, List.count_eq_zero.mpr absent, Nat.add_zero]
  · have absent : Violation.entryLevel entryPoint level topLevel ∉
        lists.flatten := fun present => blocked _ present rfl
    rw [List.count_append, List.count_eq_zero.mpr absent, Nat.zero_add]
    exact entryReported entryPoint level topLevel

/-- Nothing is reported about the blocks and runs exactly if all of them are
orderly. -/
theorem Audited.clean_iff (audited : index.Audited violations)
    (framed : index.links.Framed) :
    (∀ violation ∈ violations, violation.block? = none) ↔
      ∀ id < index.links.size, index.links.Orderly id := by
  constructor
  · intro clean id inside
    obtain ⟨needed, actual, sizes⟩ := framed.exists_blockSizes? inside
    refine ((audited.block id).clean_iff sizes).mp fun violation found => ?_
    rw [clean violation found]
    exact (Option.some_ne_none id).symm
  · intro orderly violation found
    by_contra blocked
    obtain ⟨id, here⟩ := Option.ne_none_iff_exists'.mp blocked
    have inside := (audited.block id).lt_size found here
    obtain ⟨needed, actual, sizes⟩ := framed.exists_blockSizes? inside
    exact ((audited.block id).clean_iff sizes).mpr (orderly id inside)
      violation found here

/-- Nothing is reported about the entry point exactly if it is on the top
level, or if there is none. -/
theorem EntryReported.clean_iff (reported : index.EntryReported violations)
    (inside : ∀ entryPoint,
      index.entryPoint = some entryPoint → entryPoint < index.links.size) :
    (∀ violation ∈ violations, violation.block? ≠ none) ↔
      ∀ entryPoint, index.entryPoint = some entryPoint →
        index.links.levels[entryPoint]? = some index.topLevel := by
  constructor
  · intro clean entryPoint entry
    obtain ⟨level, found⟩ : ∃ level,
        index.links.levels[entryPoint]? = some level :=
      ⟨_, Array.getElem?_eq_getElem (inside entryPoint entry)⟩
    have counted := (reported entryPoint level index.topLevel).symm.trans
      (List.count_eq_zero.mpr fun present => clean _ present rfl)
    by_contra off
    rw [if_pos ⟨⟨entry, found, rfl⟩, fun same => off (same ▸ found)⟩]
      at counted
    exact Nat.one_ne_zero counted
  · intro onTop violation present unblocked
    cases violation with
    | entryLevel entryPoint level topLevel =>
        refine List.count_eq_zero.mp
          ((reported entryPoint level topLevel).trans (if_neg ?_)) present
        rintro ⟨⟨entry, found, rfl⟩, off⟩
        exact off (Option.some.inj (found.symm.trans (onTop _ entry)))
    | blockSize | gap | selfLoop | outOfRange | duplicate | belowLevel =>
        cases unblocked

/-- An audit finds nothing exactly if all blocks are orderly and the entry
point, if there is one, is on the top level. -/
theorem audit_eq_nil_iff (framed : index.links.Framed)
    (inside : ∀ entryPoint,
      index.entryPoint = some entryPoint → entryPoint < index.links.size) :
    index.audit = .ok [] ↔
      (∀ id < index.links.size, index.links.Orderly id) ∧
        ∀ entryPoint, index.entryPoint = some entryPoint →
          index.links.levels[entryPoint]? = some index.topLevel := by
  obtain ⟨violations, ended, audited⟩ := audit_eq framed inside
  rw [ended, Except.ok.injEq, List.eq_nil_iff_forall_not_mem,
    ← audited.clean_iff framed, ← audited.entry.clean_iff inside]
  constructor
  · exact fun nothing => ⟨fun violation found => absurd found (nothing _),
      fun violation found => absurd found (nothing _)⟩
  · exact fun ⟨unblocked, blocked⟩ violation found =>
      blocked violation found (unblocked violation found)

/-- An audit always ends, and it reports each block of the wrong size and each
defect of a run of any other block, as often as it occurs and nothing else,
whatever the slots hold. -/
theorem audit_exact (framed : index.links.Framed)
    (inside : ∀ entryPoint,
      index.entryPoint = some entryPoint → entryPoint < index.links.size) :
    ∃ violations, index.audit = .ok violations ∧ index.Audited violations ∧
      ((∀ violation ∈ violations, violation.block? = none) ↔
        ∀ id < index.links.size, index.links.Orderly id) := by
  obtain ⟨violations, ended, audited⟩ := audit_eq framed inside
  exact ⟨violations, ended, audited, audited.clean_iff framed⟩

theorem scarred_exact : scarred.links.Framed ∧
    (∀ entryPoint, scarred.entryPoint = some entryPoint →
      entryPoint < scarred.links.size) ∧
    ∃ violations, scarred.audit = .ok violations ∧
      scarred.Audited violations ∧
      ((∀ violation ∈ violations, violation.block? = none) ↔
        ∀ id < scarred.links.size, scarred.links.Orderly id) := by
  have inside : ∀ entryPoint, scarred.entryPoint = some entryPoint →
      entryPoint < scarred.links.size := by
    rintro _ ⟨⟩
    decide
  have framed : scarred.links.Framed := by decide
  exact ⟨framed, inside, audit_exact framed inside⟩

example : scarred.audit = .ok
    [.selfLoop 0 0, .outOfRange 0 0 9, .duplicate 0 0 1, .belowLevel 0 1 2,
      .gap 1 0, .blockSize 2 4 3, .entryLevel 1 0 1] :=
  rfl

end SmallWorld.Index
