/-!
# The Mersenne Twister

The standard 64-bit generator with a state of 312 words: one output word per
step, the whole state regenerated when its words are used up.
-/

namespace CrossLookup

/-- The state of the generator. -/
structure MersenneTwister where
  words : Vector UInt64 312
  /-- The number of words used since the last regeneration. -/
  used : Nat

namespace MersenneTwister

/-- The word at an index of the seeded state, from the word before it. -/
def seedWord (previous : UInt64) (i : Nat) : UInt64 :=
  (6364136223846793005 : UInt64) * (previous ^^^ (previous >>> 62)) + .ofNat i

/-- The state of a seed, all of whose words count as used. -/
def ofSeed (seed : UInt64) : MersenneTwister :=
  let first := (Vector.replicate 312 0).set 0 seed
  let words := (List.range 311).foldl (fun words i =>
    words.setIfInBounds (i + 1) (seedWord (words[i]?.getD 0) (i + 1))) first
  ⟨words, 312⟩

/-- Regenerate one word from its successor and the word 156 places on. -/
def twistWord (words : Vector UInt64 312) (i : Fin 312) : Vector UInt64 312 :=
  let joined := (words[i] &&& 0xFFFFFFFF80000000) ||| (words[i + 1] &&& 0x7FFFFFFF)
  let factor : UInt64 := if joined &&& 1 = 0 then 0 else 0xB5026F5AA96619E9
  words.set i (words[i + 156] ^^^ (joined >>> 1) ^^^ factor)

/-- Regenerate every word in order. -/
def twist (words : Vector UInt64 312) : Vector UInt64 312 :=
  (List.finRange 312).foldl twistWord words

/-- Mix the bits of a state word into an output word. -/
def temper (x : UInt64) : UInt64 :=
  let x := x ^^^ ((x >>> 29) &&& 0x5555555555555555)
  let x := x ^^^ ((x <<< 17) &&& 0x71D67FFFEDA60000)
  let x := x ^^^ ((x <<< 37) &&& 0xFFF7EEE000000000)
  x ^^^ (x >>> 43)

/-- The next output word. -/
def next : StateM MersenneTwister UInt64 := fun g =>
  if h : g.used < 312 then
    (temper g.words[g.used], { g with used := g.used + 1 })
  else
    let words := twist g.words
    (temper words[0], ⟨words, 1⟩)

end MersenneTwister

end CrossLookup
