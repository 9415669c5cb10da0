import CompressedRefs.Word

/-!
# Blocks of a keystream

The ChaCha stream cipher with eight rounds, as a source of words: a key of eight
words gives one block of sixteen words for every value of a 64-bit counter.  A
block starts as four rows of four words (constants, key, key, counter), is mixed
by columns and by diagonals in turn, and has its start added at the end.

The four columns are mixed at once, so a row is the unit of work: words of one
row never meet, and a diagonal is a column after the rows have been turned
against each other.

## Main definitions

* `Row` — four words, added, combined and turned together.
* `Block`, `Block.quarterRounds`, `Block.doubleRound` — sixteen words, and the mixing.
* `Key`, `Key.block`, `Key.word` — the block of a counter, and the endless sequence of words.
-/

namespace CompressedRefs.Keystream

/-! ## Rows -/

/-- Four words side by side. -/
@[ext] structure Row where
  w₀ : UInt32
  w₁ : UInt32
  w₂ : UInt32
  w₃ : UInt32
  deriving DecidableEq

namespace Row

/-- Word by word, what `f` makes of two rows. -/
def zip (f : UInt32 → UInt32 → UInt32) (r s : Row) : Row :=
  ⟨f r.w₀ s.w₀, f r.w₁ s.w₁, f r.w₂ s.w₂, f r.w₃ s.w₃⟩

/-- The sum of two rows, without carries between words or out of them. -/
def add (r s : Row) : Row := zip (· + ·) r s

/-- The bits in which two rows differ, turned left by `n` places in every word. -/
def xorTurned (n : UInt32) (r s : Row) : Row :=
  zip (fun x y => (x ^^^ y) <<< n ||| (x ^^^ y) >>> (32 - n)) r s

/-- The row that starts one word later and ends with the first word. -/
def turn (r : Row) : Row := ⟨r.w₁, r.w₂, r.w₃, r.w₀⟩

/-- The word at a place, counted round the row. -/
def word (r : Row) (i : Nat) : UInt32 :=
  match i % 4 with
  | 0 => r.w₀
  | 1 => r.w₁
  | 2 => r.w₂
  | _ => r.w₃

end Row

/-! ## Mixing -/

/-- Sixteen words in four rows. -/
@[ext] structure Block where
  a : Row
  b : Row
  c : Row
  d : Row
  deriving DecidableEq

namespace Block

/-- A quarter round on every column. -/
def quarterRounds (s : Block) : Block :=
  let a := s.a.add s.b
  let d := Row.xorTurned 16 s.d a
  let c := s.c.add d
  let b := Row.xorTurned 12 s.b c
  let a := a.add b
  let d := Row.xorTurned 8 d a
  let c := c.add d
  let b := Row.xorTurned 7 b c
  ⟨a, b, c, d⟩

/-- Turn the rows so that diagonals become columns. -/
def diagonal (s : Block) : Block := ⟨s.a, s.b.turn, s.c.turn.turn, s.d.turn.turn.turn⟩

/-- Turn the rows back. -/
def undiagonal (s : Block) : Block := ⟨s.a, s.b.turn.turn.turn, s.c.turn.turn, s.d.turn⟩

/-- A round on the columns and one on the diagonals. -/
def doubleRound (s : Block) : Block := s.quarterRounds.diagonal.quarterRounds.undiagonal

/-- Eight rounds. -/
def mix (s : Block) : Block := s.doubleRound.doubleRound.doubleRound.doubleRound

/-- The sum of two blocks, word by word. -/
def add (s t : Block) : Block := ⟨s.a.add t.a, s.b.add t.b, s.c.add t.c, s.d.add t.d⟩

/-- The word at a place, row after row. -/
def word (s : Block) (i : Nat) : UInt32 :=
  match i / 4 with
  | 0 => s.a.word i
  | 1 => s.b.word i
  | 2 => s.c.word i
  | _ => s.d.word i

end Block

/-! ## The sequence of words -/

/-- The bytes of `expand 32-byte k`, the least significant of each word first. -/
def constants : Row := ⟨0x61707865, 0x3320646e, 0x79622d32, 0x6b206574⟩

/-- A key of eight words. -/
structure Key where
  low : Row
  high : Row
  deriving DecidableEq

namespace Key

/-- The block before mixing: the counter takes two words, and the two behind it are zero. -/
def initial (k : Key) (counter : UInt64) : Block :=
  ⟨constants, k.low, k.high, ⟨counter.toUInt32, (counter >>> 32).toUInt32, 0, 0⟩⟩

/-- The block of a counter. -/
def block (k : Key) (counter : UInt64) : Block :=
  (k.initial counter).mix.add (k.initial counter)

/-- The words of all blocks in one sequence, sixteen to a block. -/
def word (k : Key) (i : Nat) : UInt32 := (k.block (UInt64.ofNat (i / 16))).word (i % 16)

/-- Two words in a row as one of 64 bits, the first the less significant. -/
def doubleWord (k : Key) (i : Nat) : UInt64 := Word.ofHalves (k.word i) (k.word (i + 1))

end Key

end CompressedRefs.Keystream
