/-!
# Sources of uniform draws

Levels are drawn from a source of numbers in `[0, 1)`.  A source is a value:
a draw returns the number together with the source that follows.
-/

namespace SmallWorld

/-- States from which uniform numbers are drawn, one after the other. -/
class UniformSource (σ : Type) where
  /-- The next number, and the state after it. -/
  draw : σ → Float × σ

/-- States from which random 64-bit words are drawn. -/
class WordSource (ρ : Type) where
  /-- The next word, and the state after it. -/
  word : ρ → UInt64 × ρ

namespace UniformSource

def draws {σ : Type} [UniformSource σ] : Nat → σ → List Float × σ
  | 0, source => ([], source)
  | count + 1, source =>
      let (value, source) := draw source
      let (values, source) := draws count source
      (value :: values, source)

end UniformSource

/-- The fraction that the upper 53 bits of a word stand for. -/
def wordFraction (word : UInt64) : Float :=
  let unit : Float := .ofBits 0x3ca0000000000000
  (word >>> 11).toFloat * unit

/-- A source of words, read as a source of uniform numbers. -/
structure WordFractions (ρ : Type) where
  words : ρ

instance {ρ : Type} [WordSource ρ] : UniformSource (WordFractions ρ) where
  draw source :=
    let (word, words) := WordSource.word source.words
    (wordFraction word, { words })

/-- A fixed list of values that is repeated for ever. -/
structure Cycle (α : Type) where
  values : Array α
  position : Nat

namespace Cycle

def ofList {α : Type} (values : List α) : Cycle α where
  values := values.toArray
  position := 0

/-- The next value, or `fallback` if there is none at all. -/
def next {α : Type} (fallback : α) (cycle : Cycle α) : α × Cycle α :=
  let value := cycle.values.getD cycle.position fallback
  let position :=
    if cycle.position + 1 < cycle.values.size then cycle.position + 1 else 0
  (value, { cycle with position })

end Cycle

instance : UniformSource (Cycle Float) where
  draw cycle := cycle.next (.ofBits 0)

instance : WordSource (Cycle UInt64) where
  word cycle := cycle.next 0

end SmallWorld
