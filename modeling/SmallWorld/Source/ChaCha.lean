import SmallWorld.Scalar
import SmallWorld.Source.Basic

/-!
# The ChaCha12 generator

The keystream of the ChaCha cipher with twelve rounds, read as a sequence of
32-bit words.  The key is expanded from a 64-bit seed, the block counter
starts at zero and the stream number is zero.
-/

namespace SmallWorld

/-- The sixteen words of a ChaCha block. -/
abbrev ChaChaBlock := Vector UInt32 16

namespace ChaChaBlock

def rotateLeft (word : UInt32) (count : UInt32) : UInt32 :=
  (word <<< count) ||| (word >>> (32 - count))

/-- Mix four words of a block. -/
def quarterRound (a b c d : Fin 16) (block : ChaChaBlock) : ChaChaBlock :=
  let block := block.set a (block[a] + block[b])
  let block := block.set d (rotateLeft (block[d] ^^^ block[a]) 16)
  let block := block.set c (block[c] + block[d])
  let block := block.set b (rotateLeft (block[b] ^^^ block[c]) 12)
  let block := block.set a (block[a] + block[b])
  let block := block.set d (rotateLeft (block[d] ^^^ block[a]) 8)
  let block := block.set c (block[c] + block[d])
  block.set b (rotateLeft (block[b] ^^^ block[c]) 7)

/-- One round on the columns of a block and one on its diagonals. -/
def doubleRound (block : ChaChaBlock) : ChaChaBlock :=
  block
    |> quarterRound 0 4 8 12
    |> quarterRound 1 5 9 13
    |> quarterRound 2 6 10 14
    |> quarterRound 3 7 11 15
    |> quarterRound 0 5 10 15
    |> quarterRound 1 6 11 12
    |> quarterRound 2 7 8 13
    |> quarterRound 3 4 9 14

def doubleRounds : Nat → ChaChaBlock → ChaChaBlock
  | 0, block => block
  | count + 1, block => doubleRounds count block.doubleRound

/-- The block before the rounds: four constant words, the key, the counter
and the stream number. -/
def input (key : Vector UInt32 8) (counter : UInt64) : ChaChaBlock :=
  #v[0x61707865, 0x3320646e, 0x79622d32, 0x6b206574,
    key[0], key[1], key[2], key[3], key[4], key[5], key[6], key[7],
    counter.toUInt32, (counter >>> 32).toUInt32, 0, 0]

/-- One block of the keystream with twelve rounds. -/
def keystream (key : Vector UInt32 8) (counter : UInt64) : ChaChaBlock :=
  let start := input key counter
  (start.doubleRounds 6).zipWith (· + ·) start

end ChaChaBlock

/-- The ChaCha12 generator: its key, the number of the next block and the
words of the current block that are left. -/
structure ChaCha where
  key : Vector UInt32 8
  counter : UInt64
  pending : List UInt32

namespace ChaCha

/-- One step of the sequence from which the key is taken. -/
def expandStep (state : UInt64) : UInt64 :=
  state * 6364136223846793005 + 11634580027462260723

/-- The key word that a state of that sequence stands for: its upper bits,
rotated to the right by a number of places read from the highest ones. -/
def keyWord (state : UInt64) : UInt32 :=
  let mixed := (((state >>> 18) ^^^ state) >>> 27).toUInt32
  let places := (state >>> 59).toUInt32
  (mixed >>> places) ||| (mixed <<< ((32 - places) % 32))

/-- The first `count` key words of a seed. -/
def keyWords : Nat → UInt64 → List UInt32
  | 0, _ => []
  | count + 1, state =>
      let state := expandStep state
      keyWord state :: keyWords count state

def ofSeed (seed : UInt64) : ChaCha where
  key := Vector.ofFn fun position => (keyWords 8 seed).getD position 0
  counter := 0
  pending := []

def next32 (generator : ChaCha) : UInt32 × ChaCha :=
  match generator.pending with
  | word :: pending => (word, { generator with pending })
  | [] =>
      let block := ChaChaBlock.keystream generator.key generator.counter
      (block[0],
        { generator with
          counter := generator.counter + 1
          pending := block.toList.tail })

/-- The next two words of the keystream as one, the lower half first. -/
def next64 (generator : ChaCha) : UInt64 × ChaCha :=
  let (low, generator) := generator.next32
  let (high, generator) := generator.next32
  (high.toUInt64 <<< 32 ||| low.toUInt64, generator)

/-- The next scalar in `[0, 1)`, from the upper 24 bits of a word. -/
def nextScalar (generator : ChaCha) : Scalar × ChaCha :=
  let (word, generator) := generator.next32
  let unit : Scalar := .ofBits 0x33800000
  (Scalar.ofCount (word >>> 8).toNat * unit, generator)

/-- A number below `bound`, which is at most `2 ^ 32`.  A word times the bound
gives the number as its upper half; a second word settles the carry that the
lower half may produce, so that all numbers are about equally likely. -/
def nextBelow (bound : Nat) (generator : ChaCha) : Nat × ChaCha :=
  let (word, generator) := generator.next32
  let product := word.toNat * bound
  let high := product / UInt32.size
  let low := product % UInt32.size
  if UInt32.size - bound < low then
    let (word, generator) := generator.next32
    let carry := (low + word.toNat * bound / UInt32.size) / UInt32.size
    (high + carry, generator)
  else
    (high, generator)

end ChaCha

instance : WordSource ChaCha where
  word := ChaCha.next64

end SmallWorld
