import SmallWorld.Decimal.ScalarText

/-!
# Refusals and faults

A call on an index can end badly in two ways.  It is *refused* when its
arguments do not fit; nothing has been changed then.  It meets a *fault* when
the stored state contradicts itself: a run is read outside the slots, or a
distance is not finite.  Both are values, so that the absence of faults can be
stated.
-/

namespace SmallWorld

/-- Why a setting or an argument is not allowed. -/
inductive Invalid where
  | zeroDimension
  | smallBranching (branching : Nat)
  | zeroConstructionWidth
  | zeroSearchWidth
  | zeroCount
  | notFinite (position : Nat) (value : Scalar)
  | tooLarge (position : Nat) (value bound : Scalar)
  | stated (reason : String)
  deriving DecidableEq

def Invalid.text : Invalid → String
  | .zeroDimension => "dimension must be positive"
  | .smallBranching branching => s!"M must be at least 2, got {branching}"
  | .zeroConstructionWidth => "ef_construction must be at least 1"
  | .zeroSearchWidth => "ef_search must be at least 1"
  | .zeroCount => "k must be positive"
  | .notFinite position value =>
      s!"vector component {position} is not finite ({value.plain})"
  | .tooLarge position value bound =>
      let limit := bound.scientific
      s!"vector component {position} ({value.plain}) exceeds " ++
        s!"the magnitude limit {limit}"
  | .stated reason => reason

inductive Refusal where
  | dimensionMismatch (expected got : Nat)
  | invalid (why : Invalid)
  | noPoints
  | full (capacity : Nat)
  deriving DecidableEq

def Refusal.message : Refusal → String
  | .dimensionMismatch expected got =>
      s!"dimension mismatch: index expects {expected} dimensions, " ++
        s!"vector has {got}"
  | .invalid why => "invalid configuration: " ++ why.text
  | .noPoints => "index is empty"
  | .full capacity => s!"index is full: at most {capacity} points"

/-- A contradiction met in the stored state, or a demand that no state can
meet. -/
inductive Fault where
  | outOfBounds
  | brokenDistance (value : Scalar)
  | overfullRun (count capacity level : Nat)
  | negativeRoom (count capacity : Nat)
  | noClusters
  deriving DecidableEq

def Fault.message? : Fault → Option String
  | .outOfBounds => none
  | .brokenDistance value =>
      some (s!"non-finite distance ({value.plain}) between stored vectors: " ++
        "index is corrupted")
  | .overfullRun count capacity level =>
      some (s!"{count} neighbors exceed capacity {capacity} " ++
        s!"at level {level}")
  | .negativeRoom _ _ => none
  | .noClusters => some "need at least one cluster"

/-- How a call can end without a result. -/
inductive Failure where
  | refused (refusal : Refusal)
  | faulted (fault : Fault)
  deriving DecidableEq

instance : MonadLift (Except Refusal) (Except Failure) where
  monadLift result := result.mapError .refused

instance : MonadLift (Except Fault) (Except Failure) where
  monadLift result := result.mapError .faulted

@[simp]
theorem monadLift_refusal_ok {α : Type} (value : α) :
    (monadLift (Except.ok value : Except Refusal α) : Except Failure α) =
      .ok value :=
  rfl

@[simp]
theorem monadLift_fault_ok {α : Type} (value : α) :
    (monadLift (Except.ok value : Except Fault α) : Except Failure α) =
      .ok value :=
  rfl

@[simp]
theorem monadLift_refusal_error {α : Type} (refusal : Refusal) :
    (monadLift (Except.error refusal : Except Refusal α) :
      Except Failure α) = .error (.refused refusal) :=
  rfl

@[simp]
theorem monadLift_fault_error {α : Type} (fault : Fault) :
    (monadLift (Except.error fault : Except Fault α) : Except Failure α) =
      .error (.faulted fault) :=
  rfl

end SmallWorld
