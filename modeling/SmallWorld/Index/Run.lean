import SmallWorld.Index.Audit
import SmallWorld.Index.Insertion

/-!
# Runs of calls

An index grows by calls that insert one vector or several.  A call that is
refused leaves the index as it was, and later calls go on from there.
-/

namespace SmallWorld

inductive Call where
  | insert (vector : Coordinates)
  | insertAll (vectors : List Coordinates)

namespace Index

variable {σ : Type}

/-- The index after a call that returned the given outcome. -/
def settleCall (index : Index σ) :
    Except Failure (Index σ) → Except Fault (Index σ)
  | .ok next => .ok next
  | .error (.refused _) => .ok index
  | .error (.faulted fault) => .error fault

def apply [UniformSource σ] (index : Index σ) :
    Call → Except Fault (Index σ)
  | .insert vector =>
      index.settleCall ((index.insert vector).outcome.map fun (_, next) => next)
  | .insertAll vectors =>
      index.settleCall
        ((index.insertAll vectors).outcome.map fun (_, _, next) => next)

def run [UniformSource σ] (index : Index σ) :
    List Call → Except Fault (Index σ)
  | [] => .ok index
  | call :: rest => do
      let next ← index.apply call
      next.run rest

/-- An index as it is created, whatever levels its table lists.  The dimension
is a machine word. -/
structure IsFresh (index : Index σ) : Prop where
  dimension_pos : 1 ≤ index.cloud.dimension
  machine : index.cloud.dimension < UInt64.size
  valid : index.settings.Valid
  branching_eq : index.links.table.branching = index.settings.branching
  cloud_eq : index.cloud.vectors = #[]
  links_eq : index.links = Links.empty index.links.table
  entryPoint_eq : index.entryPoint = none
  topLevel_eq : index.topLevel = 0

/-- Whether calls on an index that has just been created lead to this one. -/
def Reachable [UniformSource σ] (index : Index σ) : Prop :=
  ∃ (start : Index σ) (calls : List Call),
    start.IsFresh ∧ start.run calls = .ok index

theorem isFresh_of_create {dimension : Nat} {settings : Settings} {source : σ}
    {index : Index σ} (machine : dimension < UInt64.size)
    (created : (create dimension settings source).outcome = .ok index) :
    index.IsFresh := by
  unfold create at created
  rw [Traced.outcome_bind] at created
  cases validated : settings.validate dimension with
  | error refusal =>
      rw [validated] at created
      cases created
  | ok _ =>
      obtain ⟨positive, valid⟩ := Settings.validate_eq_ok_iff.mp validated
      have branching : ¬ settings.branching < 2 := by
        have := valid.1
        omega
      have nonzero : dimension ≠ 0 := by omega
      rw [validated] at created
      simp only [LevelTable.ofBranching, branching, if_false, Cloud.empty,
        nonzero] at created
      cases created
      exact ⟨positive, machine, valid, rfl, rfl, rfl, rfl, rfl⟩

end Index

end SmallWorld
