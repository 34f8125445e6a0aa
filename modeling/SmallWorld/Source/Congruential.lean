import SmallWorld.Source.Basic

/-!
# The linear congruential generator

The reference source of levels: the state is a 31-bit number, and a draw
replaces it by `state * 1103515245 + 12345` modulo `2 ^ 31`.  Every state is
less than the modulus and so is the multiplier, hence the product fits into
64 bits.
-/

namespace SmallWorld

structure Congruential where
  state : UInt64
  deriving DecidableEq

namespace Congruential

def multiplier : UInt64 := 1103515245

def increment : UInt64 := 12345

def modulus : UInt64 := 2147483648

/-- The generator started from a seed, of which the lower 31 bits count. -/
def ofSeed (seed : UInt64) : Congruential where
  state := seed % modulus

def step (generator : Congruential) : Congruential where
  state := (generator.state * multiplier + increment) % modulus

def advance (steps : Nat) (generator : Congruential) : Congruential :=
  Nat.repeat step steps generator

def next (generator : Congruential) : UInt64 × Congruential :=
  let following := generator.step
  (following.state, following)

/-- The number in `[0, 1)` that a state stands for. -/
def fraction (generator : Congruential) : Float :=
  generator.state.toFloat / modulus.toFloat

end Congruential

instance : UniformSource Congruential where
  draw generator :=
    let following := generator.step
    (following.fraction, following)

end SmallWorld
