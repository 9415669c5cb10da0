import CompressedRefs.Keystream.Block

/-!
# Keys from seeds

A 64-bit seed is stretched to a key of eight words by a congruential generator:
every step multiplies and adds, and hands out one word that mixes the high bits
of its state.

## Main definitions

* `Seed.advance`, `Seed.output`, `Seed.word` — a step, its word, and the words in turn.
* `Key.ofSeed` — the key made of the first eight words.
-/

namespace CompressedRefs.Keystream

namespace Seed

/-- The next state. -/
def advance (s : UInt64) : UInt64 := s * 6364136223846793005 + 11634580027462260723

/-- The word of a state: its high bits folded onto lower ones and turned right by
as many places as the five highest bits say. -/
def output (s : UInt64) : UInt32 :=
  let x := (((s >>> 18) ^^^ s) >>> 27).toUInt32
  let n := (s >>> 59).toUInt32
  x >>> n ||| x <<< (32 - n)

/-- The state after so many steps. -/
def state (seed : UInt64) : Nat → UInt64
  | 0 => seed
  | n + 1 => advance (state seed n)

/-- The word at a place: a step comes before the first one. -/
def word (seed : UInt64) (i : Nat) : UInt32 := output (state seed (i + 1))

end Seed

/-- The key made of the first eight words of a seed. -/
def Key.ofSeed (seed : UInt64) : Key :=
  let w := Seed.word seed
  ⟨⟨w 0, w 1, w 2, w 3⟩, ⟨w 4, w 5, w 6, w 7⟩⟩

end CompressedRefs.Keystream
