import CompressedRefs.Samples.AddressStream

/-!
# Fixed workloads

Lists of addresses and references that are the same on every run, for measuring
an encoding on equal terms: good addresses, addresses of which every `k`th is
bad, and references.  Their shape is the same for every generator; a fixed seed
makes them the same lists.

## Main definitions

* `Workload.representableFrom`, `Workload.mixedFrom`, `Workload.refsFrom` — the lists, from any
  generator.
* `Workload.seed` — the seed of every workload.
* `Workload.representable`, `Workload.mixed`, `Workload.refs` — the lists of that seed.
-/

namespace CompressedRefs.Workload

/-- Whether the address at an index is a bad one: the last of every `k` is, and
none is for `k = 0`. -/
def isBad (k index : Nat) : Bool := k != 0 && index % k == k - 1

section Generators

variable {σ : Type} (g : Generator σ)

/-- So many representable addresses. -/
def representableFrom (s : σ) (n : Nat) : List Address := (g.takeRepresentable s n).1

/-- The next `n` addresses of a generator, the first of which has the given index. -/
def mixedFrom (k index : Nat) (s : σ) : Nat → List Address
  | 0 => []
  | n + 1 =>
    let next := if isBad k index then g.unrepresentable s else g.representable s
    next.1 :: mixedFrom k (index + 1) next.2 n

/-- The references of the representable addresses. -/
def refsFrom (s : σ) (n : Nat) : List Ref :=
  (representableFrom g s n).filterMap fun a => a.encode.toOption

@[simp] theorem length_representableFrom (s : σ) (n : Nat) :
    (representableFrom g s n).length = n := g.length_takeRepresentable s n

@[simp] theorem length_mixedFrom (k index : Nat) (s : σ) (n : Nat) :
    (mixedFrom g k index s n).length = n := by
  induction n generalizing index s with
  | zero => rfl
  | succ n ih => simp [mixedFrom, ih]

end Generators

/-- The seed of every workload. -/
def seed : UInt64 := 0xC0FFEE32

/-- So many representable addresses, of the fixed seed. -/
def representable (n : Nat) : List Address :=
  representableFrom AddressStream.generator (.ofSeed seed) n

/-- So many addresses of the fixed seed, of which the last of every `k` is unrepresentable. -/
def mixed (n k : Nat) : List Address := mixedFrom AddressStream.generator k 0 (.ofSeed seed) n

/-- The references of the representable addresses of the fixed seed. -/
def refs (n : Nat) : List Ref := refsFrom AddressStream.generator (.ofSeed seed) n

end CompressedRefs.Workload
