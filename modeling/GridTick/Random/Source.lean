import GridTick.Number.Power

/-!
# GridTick.Random.Source — drawing numbers from a stream of words

A source hands out 32-bit words.  Everything random is drawn from such words in a fixed way, so two equal sources
give equal draws.

* `drawWord64`, `drawUnit`: a 64-bit word, and a double from zero to below one.
* `drawBelow32`, `drawBelow64`: a whole number below a bound, each equally likely.  A word is scaled to the bound and
  kept unless it falls into the last, incomplete stretch of words; then the next one is tried.
* `drawBetween`, `Span.draw`: a double of an interval without or with its upper end.
* `drawChance`: an event of a given probability.

The trials are bounded by `patience`, beyond which the last trial counts.
-/

namespace GridTick

/-- A source of 32-bit words. -/
class WordSource (γ : Type) where
  next : γ → UInt32 × γ

/-- Number of trials after which a draw takes what it has. -/
def patience : Nat := 4096

section Draws

variable {γ : Type} [WordSource γ]

@[specialize] def drawWord64 (g : γ) : UInt64 × γ :=
  let (low, g) := WordSource.next g
  let (high, g) := WordSource.next g
  (low.toUInt64 ||| (high.toUInt64 <<< 32), g)

/-- A double from zero to below one, in steps of `2^-52`. -/
@[specialize] def drawUnit (g : γ) : Float × γ :=
  let (w, g) := drawWord64 g
  (Float.ofBits ((w >>> 12) ||| 0x3FF0000000000000) - 1.0, g)

/-- Last word of `bits` bits for which every value below `n` has been met equally often, counting in the scaled
words' low halves. -/
def acceptedUpTo (bits n : Nat) : Nat := n * twoTo (bits - 1 - n.log2) - 1

/-- Try words until one is accepted, scaled to `n`. -/
@[specialize] def tryBelow32 (n zone : Nat) : Nat → γ → Nat × γ
  | 0, g =>
    let (w, g) := WordSource.next g
    (w.toNat * n / twoTo 32, g)
  | trials + 1, g =>
    let (w, g) := WordSource.next g
    let p := w.toNat * n
    if p % twoTo 32 ≤ zone then (p / twoTo 32, g) else tryBelow32 n zone trials g

@[specialize] def drawBelow32 (n : Nat) (g : γ) : Nat × γ := tryBelow32 n (acceptedUpTo 32 n) patience g

/-- Try double words until one is accepted, scaled to `n`. -/
@[specialize] def tryBelow64 (n zone : Nat) : Nat → γ → Nat × γ
  | 0, g =>
    let (w, g) := drawWord64 g
    (w.toNat * n / twoTo 64, g)
  | trials + 1, g =>
    let (w, g) := drawWord64 g
    let p := w.toNat * n
    if p % twoTo 64 ≤ zone then (p / twoTo 64, g) else tryBelow64 n zone trials g

@[specialize] def drawBelow64 (n : Nat) (g : γ) : Nat × γ := tryBelow64 n (acceptedUpTo 64 n) patience g

/-- Try doubles until one lies below the upper end. -/
@[specialize] def tryBetween (low high : Float) : Nat → γ → Float × γ
  | 0, g => (low, g)
  | trials + 1, g =>
    let (u, g) := drawUnit g
    let v := u * (high - low) + low
    if v < high then (v, g) else tryBetween low high trials g

@[specialize] def drawBetween (low high : Float) (g : γ) : Float × γ := tryBetween low high patience g

end Draws

/-- An interval with both ends, as its lower end and a factor for a draw from zero to below one. -/
structure Span where
  low : Float
  scale : Float

namespace Span

/-- Largest value of `drawUnit`. -/
def largestUnit : Float := 1.0 - Float.ofBits 0x3CB0000000000000

/-- Lower a factor bit by bit until the largest draw stays within the upper end. -/
def fit (low high : Float) : Nat → Float → Float
  | 0, scale => scale
  | trials + 1, scale =>
    if high < scale * largestUnit + low then fit low high trials (Float.ofBits (scale.toBits - 1)) else scale

/-- The interval from `low` to `high`. -/
def between (low high : Float) : Span := ⟨low, fit low high patience ((high - low) / largestUnit)⟩

@[specialize] def draw {γ : Type} [WordSource γ] (s : Span) (g : γ) : Float × γ :=
  let (u, g) := drawUnit g
  (u * s.scale + s.low, g)

end Span

/-- A probability, as the number of 64-bit words that count as the event. -/
def chanceWords (p : Float) : UInt64 := (p * 18446744073709551616.0).toUInt64

/-- Whether an event happens that so many 64-bit words count as. -/
@[specialize] def drawChance {γ : Type} [WordSource γ] (words : UInt64) (g : γ) : Bool × γ :=
  let (w, g) := drawWord64 g
  (w < words, g)

end GridTick
