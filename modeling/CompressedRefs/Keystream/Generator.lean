import CompressedRefs.Word

/-!
# Generators of random words

What draws at random asks a generator for a word or for two words at once, and
relies on one law: the generator has an endless sequence of words, and hands out
the next one, or the next two, whatever it was asked for before.  Where the words
come from, and how a generator keeps them at hand, is its own business.

## Main definitions

* `Generator` — the two questions that a generator answers.
* `Generator.Deals` — the law of next words.
-/

namespace CompressedRefs

/-- A generator of random words with states in `σ`. -/
structure Generator (σ : Type) where
  /-- The next word. -/
  word : σ → UInt32 × σ
  /-- The next two words as one of 64 bits. -/
  doubleWord : σ → UInt64 × σ

/-- The law of next words: the generator deals the words of `w` in order.  In `state p` it
has dealt those in front of place `p`.  Two words at once are the next two, the first the less
significant, so none is skipped and none is dealt twice. -/
structure Generator.Deals {σ : Type} (g : Generator σ) (w : Nat → UInt32) (state : Nat → σ) :
    Prop where
  word : ∀ p, g.word (state p) = (w p, state (p + 1))
  doubleWord : ∀ p, g.doubleWord (state p) = (Word.ofHalves (w p) (w (p + 1)), state (p + 2))

end CompressedRefs
