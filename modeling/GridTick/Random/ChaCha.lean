import GridTick.Random.Source

/-!
# GridTick.Random.ChaCha — the stream cipher as a source of words

The words of the ChaCha cipher with twelve rounds, a 64-bit block counter that starts at zero, and a zero nonce.
Blocks of sixteen words follow one another and no word is left out.  The key is stretched from a 64-bit seed.

* `ChaCha.block`: the words of one block.
* `ChaCha.ofSeed`: the source of a seed.
-/

namespace GridTick

/-- A place in the stream: key, next block, and the current block with the number of its words handed out. -/
structure ChaCha where
  key : Vector UInt32 8
  counter : UInt64
  words : Vector UInt32 16
  used : Nat

namespace ChaCha

/-- Rotate a word to the left by `n` bits, `n` from 1 to 31. -/
def rotateLeft (x n : UInt32) : UInt32 := (x <<< n) ||| (x >>> (32 - n))

/-- Mix four words. -/
def quarterRound (v : Vector UInt32 16) (a b c d : Fin 16) : Vector UInt32 16 :=
  let v := v.set a (v[a] + v[b])
  let v := v.set d (rotateLeft (v[d] ^^^ v[a]) 16)
  let v := v.set c (v[c] + v[d])
  let v := v.set b (rotateLeft (v[b] ^^^ v[c]) 12)
  let v := v.set a (v[a] + v[b])
  let v := v.set d (rotateLeft (v[d] ^^^ v[a]) 8)
  let v := v.set c (v[c] + v[d])
  v.set b (rotateLeft (v[b] ^^^ v[c]) 7)

/-- Mix the columns, then the diagonals. -/
def doubleRound (v : Vector UInt32 16) : Vector UInt32 16 :=
  let v := quarterRound v 0 4 8 12
  let v := quarterRound v 1 5 9 13
  let v := quarterRound v 2 6 10 14
  let v := quarterRound v 3 7 11 15
  let v := quarterRound v 0 5 10 15
  let v := quarterRound v 1 6 11 12
  let v := quarterRound v 2 7 8 13
  quarterRound v 3 4 9 14

/-- Number of double rounds. -/
def doubleRounds : Nat := 6

/-- What a block is mixed from: four fixed words, the key, the counter and the nonce. -/
def initial (key : Vector UInt32 8) (counter : UInt64) : Vector UInt32 16 :=
  #v[0x61707865, 0x3320646e, 0x79622d32, 0x6b206574,
    key[0], key[1], key[2], key[3], key[4], key[5], key[6], key[7],
    counter.toUInt32, (counter >>> 32).toUInt32, 0, 0]

def block (key : Vector UInt32 8) (counter : UInt64) : Vector UInt32 16 :=
  let start := initial key counter
  let mixed := doubleRounds.fold (fun _ _ v => doubleRound v) start
  mixed.zipWith (· + ·) start

def ofKey (key : Vector UInt32 8) : ChaCha := ⟨key, 0, Vector.replicate 16 0, 16⟩

/-- The next word, from the current block or the first of a new one. -/
def next (g : ChaCha) : UInt32 × ChaCha :=
  if h : g.used < 16 then (g.words[g.used], { g with used := g.used + 1 })
  else
    let words := block g.key g.counter
    (words[0], { g with counter := g.counter + 1, words, used := 1 })

instance : WordSource ChaCha := ⟨next⟩

/-- The states of the generator that stretches a seed. -/
def stretchState (state : UInt64) : UInt64 := state * 6364136223846793005 + 11634580027462260723

/-- A word of a stretched seed. -/
def stretchWord (state : UInt64) : UInt32 :=
  let x := (((state >>> 18) ^^^ state) >>> 27).toUInt32
  let r := (state >>> 59).toUInt32
  (x >>> r) ||| (x <<< ((32 - r) &&& 31))

def ofSeed (seed : UInt64) : ChaCha :=
  let s₀ := stretchState seed
  let s₁ := stretchState s₀
  let s₂ := stretchState s₁
  let s₃ := stretchState s₂
  let s₄ := stretchState s₃
  let s₅ := stretchState s₄
  let s₆ := stretchState s₅
  let s₇ := stretchState s₆
  ofKey #v[stretchWord s₀, stretchWord s₁, stretchWord s₂, stretchWord s₃,
    stretchWord s₄, stretchWord s₅, stretchWord s₆, stretchWord s₇]

end ChaCha

end GridTick
