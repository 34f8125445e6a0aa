import SmallWorld.GroundTruth
import SmallWorld.Source.ChaCha

/-!
# Synthetic datasets

Random vectors in the unit cube, either uniform or gathered around a few
random centers, for measuring searches.  A dataset is fixed by its seed.
-/

namespace SmallWorld

structure Dataset where
  train : List Coordinates
  test : List Coordinates
  dimension : Nat

namespace Dataset

def groundTruth (dataset : Dataset) (count : Nat) : List (List PointId) :=
  dataset.test.map (exactIds dataset.train count)

/-- The results of the given number of runs of a random computation. -/
def sample {α : Type} (draw : ChaCha → α × ChaCha) :
    Nat → ChaCha → List α × ChaCha
  | 0, generator => ([], generator)
  | count + 1, generator =>
      let (first, generator) := draw generator
      let (rest, generator) := sample draw count generator
      (first :: rest, generator)

/-- Random vectors to train with, and then to test with, from one
generator. -/
def ofSampler (draw : ChaCha → Coordinates × ChaCha)
    (trainCount testCount dimension : Nat) (generator : ChaCha) : Dataset :=
  let (train, generator) := sample draw trainCount generator
  let (test, _) := sample draw testCount generator
  { train, test, dimension }

def uniformVector (dimension : Nat) (generator : ChaCha) :
    Coordinates × ChaCha :=
  sample ChaCha.nextScalar dimension generator

def uniform (trainCount testCount dimension : Nat) (seed : UInt64) :
    Dataset :=
  ofSampler (uniformVector dimension) trainCount testCount dimension
    (ChaCha.ofSeed seed)

/-- A sample of the standard normal distribution, from two uniform ones. -/
def normalScalar (generator : ChaCha) : Scalar × ChaCha :=
  let minusTwo : Scalar := .ofBits 0xc0000000
  let fullTurn : Scalar := .ofBits 0x40c90fdb
  let (first, generator) := generator.nextScalar
  let (second, generator) := generator.nextScalar
  let radius := (minusTwo * (Scalar.one - first).log).sqrt
  (radius * (fullTurn * second).cos, generator)

def clampUnit (value : Scalar) : Scalar :=
  if value < Scalar.zero then
    Scalar.zero
  else if Scalar.one < value then
    Scalar.one
  else
    value

/-- A center with normal noise of the given deviation on each component,
within the unit cube. -/
def noisyVector (deviation : Scalar) :
    Coordinates → ChaCha → Coordinates × ChaCha
  | [], generator => ([], generator)
  | center :: rest, generator =>
      let (noise, generator) := normalScalar generator
      let (vector, generator) := noisyVector deviation rest generator
      (clampUnit (center + noise * deviation) :: vector, generator)

def clusteredVector (centers : Array Coordinates) (deviation : Scalar)
    (generator : ChaCha) : Coordinates × ChaCha :=
  let (position, generator) := generator.nextBelow centers.size
  noisyVector deviation (centers.getD position []) generator

def clustered (trainCount testCount dimension clusters : Nat)
    (deviation : Scalar) (seed : UInt64) : Except Fault Dataset :=
  if clusters = 0 then
    .error .noClusters
  else
    let (centers, generator) :=
      sample (uniformVector dimension) clusters (ChaCha.ofSeed seed)
    .ok (ofSampler (clusteredVector centers.toArray deviation) trainCount
      testCount dimension generator)

end Dataset

end SmallWorld
