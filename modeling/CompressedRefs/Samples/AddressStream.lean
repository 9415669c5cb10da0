import CompressedRefs.Keystream.Generator
import CompressedRefs.Keystream.Seed
import CompressedRefs.Session
import CompressedRefs.Window

/-!
# Streams of addresses

Addresses drawn from a generator of random words, in two classes.  A
representable address is the one that the next word stands for as a reference, so
every representable address is equally likely.  An unrepresentable address is
made of the next two words, and is misaligned or behind the window.

Nothing here depends on the generator.  The stream that runs draws from a
keystream: its state is a key and a position.

## Main definitions

* `Address.ofRefusedDraw` — the unrepresentable address made of 64 bits.
* `Generator.representable`, `Generator.unrepresentable`, `Generator.takeRepresentable` — the
  next address of a class, or several, from any generator.
* `Generator.run` — a session with any generator.
* `AddressStream`, `AddressStream.ofSeed` — a keystream with a position, and the one that a
  seed starts.
-/

namespace CompressedRefs

/-- The unrepresentable address made of 64 bits: even ones are made odd, odd ones
are moved behind the window and down to a multiple of eight. -/
def Address.ofRefusedDraw (raw : UInt64) : Address :=
  if raw % 2 = 0 then ⟨raw ||| 1⟩ else ⟨(raw ||| addressLimit) &&& ~~~(alignment - 1)⟩

/-- A request to a stream. -/
inductive AddressStream.Request
  /-- The next representable address. -/
  | representable
  /-- The next unrepresentable address. -/
  | unrepresentable
  /-- The next `n` representable addresses. -/
  | take (n : Nat)

/-- The reply of a stream. -/
inductive AddressStream.Reply
  /-- The address that was asked for. -/
  | one (a : Address)
  /-- The addresses that were asked for. -/
  | many (as : List Address)
  deriving DecidableEq

/-! ## Streams from any generator -/

namespace Generator

open AddressStream (Request Reply)

variable {σ : Type} (g : Generator σ)

/-- The next representable address, which takes one word. -/
def representable (s : σ) : Address × σ :=
  let next := g.word s
  (Ref.decode ⟨next.1⟩, next.2)

/-- The next unrepresentable address, which takes two words. -/
def unrepresentable (s : σ) : Address × σ :=
  let next := g.doubleWord s
  (.ofRefusedDraw next.1, next.2)

/-- The next `n` representable addresses. -/
def takeRepresentable (s : σ) : Nat → List Address × σ
  | 0 => ([], s)
  | n + 1 =>
    let first := g.representable s
    let rest := takeRepresentable first.2 n
    (first.1 :: rest.1, rest.2)

/-- Answer one request, and give the state for the next. -/
def step (s : σ) : Request → Reply × σ
  | .representable => (.one (g.representable s).1, (g.representable s).2)
  | .unrepresentable => (.one (g.unrepresentable s).1, (g.unrepresentable s).2)
  | .take n => (.many (g.takeRepresentable s n).1, (g.takeRepresentable s n).2)

/-- Answer requests in turn. -/
def run (s : σ) (requests : List Request) : List Reply × σ := Session.run g.step s requests

@[simp] theorem length_takeRepresentable (s : σ) (n : Nat) :
    (g.takeRepresentable s n).1.length = n := by
  induction n generalizing s with
  | zero => rfl
  | succ n ih => simp [Generator.takeRepresentable, ih]

variable {g} {w : Nat → UInt32} {state : Nat → σ}

theorem Deals.representable (law : g.Deals w state) (p : Nat) :
    g.representable (state p) = (Ref.decode ⟨w p⟩, state (p + 1)) := by
  rw [Generator.representable, law.word]

theorem Deals.unrepresentable (law : g.Deals w state) (p : Nat) :
    g.unrepresentable (state p) =
      (.ofRefusedDraw (Word.ofHalves (w p) (w (p + 1))), state (p + 2)) := by
  rw [Generator.unrepresentable, law.doubleWord]

/-- Several representable addresses take a word each, from the position on. -/
theorem Deals.takeRepresentable (law : g.Deals w state) (p n : Nat) :
    g.takeRepresentable (state p) n =
      ((List.range n).map fun i => Ref.decode ⟨w (p + i)⟩, state (p + n)) := by
  induction n generalizing p with
  | zero => rfl
  | succ n ih =>
    have hplace : ∀ i, p + 1 + i = p + (i + 1) := by omega
    rw [Generator.takeRepresentable, law.representable, List.range_succ_eq_map, List.map_cons,
      List.map_map]
    simp only [ih, hplace]
    rfl

end Generator

/-! ## The stream from a keystream -/

/-- A keystream and the position of the next word. -/
structure AddressStream where
  /-- The key of the words. -/
  key : Keystream.Key
  /-- How many words were used. -/
  position : Nat

namespace AddressStream

/-- The stream that a seed starts. -/
def ofSeed (seed : UInt64) : AddressStream := ⟨.ofSeed seed, 0⟩

/-- The stream after so many more words. -/
def skip (s : AddressStream) (n : Nat) : AddressStream := { s with position := s.position + n }

/-- A keystream as a generator. -/
def generator : Generator AddressStream where
  word s := (s.key.word s.position, s.skip 1)
  doubleWord s := (s.key.doubleWord s.position, s.skip 2)

/-- A keystream deals the words of its blocks in order, also across the ends of blocks. -/
theorem deals (key : Keystream.Key) : generator.Deals key.word fun p => ⟨key, p⟩ where
  word _ := rfl
  doubleWord _ := rfl

/-- The next representable address of the stream. -/
def representable (s : AddressStream) : Address × AddressStream := generator.representable s

/-- The next unrepresentable address of the stream. -/
def unrepresentable (s : AddressStream) : Address × AddressStream := generator.unrepresentable s

/-- The next `n` representable addresses of the stream. -/
def takeRepresentable (s : AddressStream) (n : Nat) : List Address × AddressStream :=
  generator.takeRepresentable s n

/-- Answer requests in turn. -/
def run (s : AddressStream) (requests : List Request) : List Reply × AddressStream :=
  generator.run s requests

end AddressStream

end CompressedRefs
