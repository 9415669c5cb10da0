import CompressedRefs.Window

/-!
# Addresses at the edges of the window

The addresses at which an encoding is most likely to be wrong, on both sides of
the line.

## Main definitions

* `Samples.representable`, `Samples.unrepresentable` — those inside, and those outside.
-/

namespace CompressedRefs.Samples

/-- Addresses that survive encoding and decoding: the first two, one that needs
more than thirty-two bits, and the last two. -/
def representable : List Address :=
  [⟨0⟩, ⟨alignment⟩, ⟨(1 : UInt64) <<< 32⟩, ⟨maxAddress.value - alignment⟩, maxAddress]

/-- Addresses that are refused: three between the multiples of eight, two behind
the window, and the largest of all, which is both. -/
def unrepresentable : List Address :=
  [⟨1⟩, ⟨5⟩, ⟨7⟩, ⟨addressLimit⟩, ⟨addressLimit + alignment⟩, ⟨Word.top⟩]

theorem representable_of_mem : ∀ a ∈ representable, a.Representable := by decide

theorem not_representable_of_mem : ∀ a ∈ unrepresentable, ¬ a.Representable := by decide

end CompressedRefs.Samples
