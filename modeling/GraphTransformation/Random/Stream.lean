/-!
A stream of random words.

The words are those of the ChaCha stream cipher with twelve rounds, a 256-bit
key, a 64-bit block counter from zero and a zero nonce. A key is expanded from a
64-bit seed by a linear congruential sequence with permuted output. A generator
is a key and the number of words already drawn, so it never changes but by
drawing.
-/

namespace GraphTransformation.Random

/-- Sixteen words: the state of the cipher. -/
abbrev Block := Vector UInt32 16

/-- The eight words of a key. -/
abbrev Key := Vector UInt32 8

/-! ### Cipher -/

def rotateLeft (x : UInt32) (n : UInt32) : UInt32 := (x <<< n) ||| (x >>> (32 - n))

def rotateRight (x : UInt32) (n : UInt32) : UInt32 := (x >>> n) ||| (x <<< ((32 - n) % 32))

/-- Mixes four words of the state. -/
def quarterRound (s : Block) (a b c d : Fin 16) : Block :=
  let xa := s[a] + s[b]
  let xd := rotateLeft (s[d] ^^^ xa) 16
  let xc := s[c] + xd
  let xb := rotateLeft (s[b] ^^^ xc) 12
  let ya := xa + xb
  let yd := rotateLeft (xd ^^^ ya) 8
  let yc := xc + yd
  let yb := rotateLeft (xb ^^^ yc) 7
  (((s.set a ya).set b yb).set c yc).set d yd

/-- One round on the columns and one on the diagonals. -/
def doubleRound (s : Block) : Block :=
  let columns := quarterRound (quarterRound (quarterRound (quarterRound s
    0 4 8 12) 1 5 9 13) 2 6 10 14) 3 7 11 15
  quarterRound (quarterRound (quarterRound (quarterRound columns
    0 5 10 15) 1 6 11 12) 2 7 8 13) 3 4 9 14

/-- The state before the rounds: four constants, the key, the counter with its
low word first, and two zero words. -/
def initialBlock (key : Key) (counter : UInt64) : Block :=
  #v[0x61707865, 0x3320646e, 0x79622d32, 0x6b206574,
    key[0], key[1], key[2], key[3], key[4], key[5], key[6], key[7],
    counter.toUInt32, (counter >>> 32).toUInt32, 0, 0]

/-- The block of the stream at a counter. -/
def block (key : Key) (counter : UInt64) : Block :=
  let start := initialBlock key counter
  let mixed := doubleRound (doubleRound (doubleRound (doubleRound (doubleRound
    (doubleRound start)))))
  mixed.zipWith (· + ·) start

/-! ### Seeds -/

/-- The state of the seed expansion after one more step. -/
def seedStep (state : UInt64) : UInt64 := state * 6364136223846793005 + 11634580027462260723

/-- The key word for a state of the seed expansion. -/
def seedWord (state : UInt64) : UInt32 :=
  rotateRight ((((state >>> 18) ^^^ state) >>> 27).toUInt32) (state >>> 59).toUInt32

/-- The `n`th state of the seed expansion. -/
def seedState (seed : UInt64) : Nat → UInt64
  | 0 => seed
  | n + 1 => seedStep (seedState seed n)

/-- The key expanded from a seed. -/
def keyOfSeed (seed : UInt64) : Key := Vector.ofFn fun i => seedWord (seedState seed (i + 1))

/-! ### Generators -/

/-- A place in the stream of a key. -/
structure Generator where
  key : Key
  drawn : Nat
  deriving DecidableEq

namespace Generator

/-- The generator of a seed, with nothing drawn. -/
def ofSeed (seed : UInt64) : Generator := ⟨keyOfSeed seed, 0⟩

instance : Inhabited Generator := ⟨ofSeed 0⟩

/-- The next word of the stream. -/
def draw32 (g : Generator) : UInt32 × Generator :=
  ((block g.key (g.drawn / 16).toUInt64).get ⟨g.drawn % 16, Nat.mod_lt _ (by decide)⟩,
    { g with drawn := g.drawn + 1 })

/-- The next two words of the stream as one, the low word first. -/
def draw64 (g : Generator) : UInt64 × Generator :=
  let (low, g) := g.draw32
  let (high, g) := g.draw32
  (low.toUInt64 ||| (high.toUInt64 <<< 32), g)

end Generator

end GraphTransformation.Random
