import SmallWorld.Failure

/-!
# Settings of an index
-/

namespace SmallWorld

/-- The settings with which an index is built and searched.  `branching`
bounds the neighbours of a point above level 0, and level 0 allows twice as
many; the widths bound the beams of insertions and of searches; `seed` starts
the generator that draws levels.

The bounds are natural numbers of any size.  Values of which a multiple is no
machine word, or which ask for more space than there is, would end a program
with a fault; this is left out. -/
structure Settings where
  branching : Nat
  constructionWidth : Nat
  searchWidth : Nat
  seed : UInt64
  deriving DecidableEq

namespace Settings

def defaultBranching : Nat := 32

def defaultConstructionWidth : Nat := 40

def defaultSearchWidth : Nat := 16

def defaultSeed : UInt64 := 12345

def ofBranching (branching : Nat) : Settings where
  branching
  constructionWidth := defaultConstructionWidth
  searchWidth := defaultSearchWidth
  seed := defaultSeed

def standard : Settings := ofBranching defaultBranching

def neighborBound (settings : Settings) (level : Nat) : Nat :=
  if level = 0 then 2 * settings.branching else settings.branching

/-- Refuse settings with which no index of the given dimension can be
built. -/
def validate (settings : Settings) (dimension : Nat) : Except Refusal Unit :=
  if dimension = 0 then
    .error (.invalid .zeroDimension)
  else if settings.branching < 2 then
    .error (.invalid (.smallBranching settings.branching))
  else if settings.constructionWidth < 1 then
    .error (.invalid .zeroConstructionWidth)
  else if settings.searchWidth < 1 then
    .error (.invalid .zeroSearchWidth)
  else
    .ok ()

/-- The settings that no index of a positive dimension refuses. -/
def Valid (settings : Settings) : Prop :=
  2 ≤ settings.branching ∧ 1 ≤ settings.constructionWidth ∧
    1 ≤ settings.searchWidth

/-- Validation succeeds exactly for valid settings and a positive
dimension. -/
theorem validate_eq_ok_iff {settings : Settings} {dimension : Nat} :
    settings.validate dimension = .ok () ↔
      1 ≤ dimension ∧ settings.Valid := by
  unfold validate Valid
  constructor
  · intro accepted
    split at accepted
    · cases accepted
    · split at accepted
      · cases accepted
      · split at accepted
        · cases accepted
        · split at accepted
          · cases accepted
          · omega
  · rintro ⟨positive, branching, construction, search⟩
    rw [if_neg (by omega), if_neg (by omega), if_neg (by omega),
      if_neg (by omega)]

end Settings

end SmallWorld
