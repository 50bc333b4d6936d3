import GraphTransformation.Random.Stream

/-!
Uniform random choices.

A number below `n` is the high half of the product of `n` and a random word.
Words whose low half lies above the last multiple that fits are drawn again, so
every number is equally likely. An order is chosen by exchanging each place,
from the last on, with one at or before it.
-/

namespace GraphTransformation.Random

/-- The greatest low half that is accepted for `n` with words of `bits` bits. -/
def zone (bits n : Nat) : Nat :=
  (n * Nat.pow 2 (bits - (n.log2 + 1)) - 1) % Nat.pow 2 bits

/-- How often a word is drawn again at most. -/
def redrawLimit : Nat := UInt64.size

/-- A number below `n`, from words of `bits` bits. -/
def below (bits : Nat) (draw : Generator → Nat × Generator) (n : Nat) :
    (redraws : Nat) → Generator → Nat × Generator
  | 0, g =>
    let (word, h) := draw g
    (word * n / Nat.pow 2 bits, h)
  | redraws + 1, g =>
    let (word, h) := draw g
    if word * n % Nat.pow 2 bits ≤ zone bits n then (word * n / Nat.pow 2 bits, h)
    else below bits draw n redraws h

namespace Generator

/-- A number below `n`, from 32-bit words. -/
def below32 (g : Generator) (n : Nat) : Nat × Generator :=
  below 32 (fun g => let (w, h) := g.draw32; (w.toNat, h)) n redrawLimit g

/-- A number below `n`, from 64-bit words. -/
def below64 (g : Generator) (n : Nat) : Nat × Generator :=
  below 64 (fun g => let (w, h) := g.draw64; (w.toNat, h)) n redrawLimit g

/-- Exchanges the places from `i` down to 1, each with one at or before it. -/
def shuffleFrom : Nat → Array Nat → Generator → Array Nat × Generator
  | 0, order, g => (order, g)
  | i + 1, order, g =>
    let (j, h) := g.below32 (i + 2)
    shuffleFrom i (order.swapIfInBounds (i + 1) j) h

/-- The numbers below `count` in random order. -/
def order (g : Generator) (count : Nat) : List Nat × Generator :=
  let (shuffled, h) := shuffleFrom (count - 1) (Array.range count) g
  (shuffled.toList, h)

/-- A random number below `count`, or none below zero; then nothing is drawn. -/
def select (g : Generator) (count : Nat) : Option Nat × Generator :=
  if count = 0 then (none, g)
  else
    let (i, h) := g.below64 count
    (some i, h)

end Generator

end GraphTransformation.Random
