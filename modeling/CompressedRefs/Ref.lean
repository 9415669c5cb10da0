import CompressedRefs.Text.Hex

/-!
# Compressed references

A compressed reference is a 32-bit number that stands for an address.  What it
stands for is the business of `CompressedRefs.Window`; here it is only a number
that is compared and printed.

## Main definitions

* `Ref`, `Ref.null`, `Ref.isNull` — the type and the reference zero.
* `Ref.text` — how a reference is printed, always in sixteen characters.
-/

namespace CompressedRefs

/-- A compressed reference, by number. -/
@[ext] structure Ref where
  /-- The number that is stored. -/
  word : UInt32
  deriving DecidableEq

namespace Ref

/-- The reference that stands for the null address. -/
def null : Ref := ⟨0⟩

instance : Inhabited Ref := ⟨null⟩

/-- Whether this is the null reference. -/
def isNull (r : Ref) : Bool := r == null

/-- References are ordered by number. -/
instance : Ord Ref := ⟨fun r s => compare r.word s.word⟩

instance : LT Ref := ⟨fun r s => r.word < s.word⟩

instance : LE Ref := ⟨fun r s => r.word ≤ s.word⟩

theorem compare_eq (r s : Ref) : compare r s = compare r.word s.word := rfl

theorem lt_def {r s : Ref} : r < s ↔ r.word < s.word := Iff.rfl

theorem le_def {r s : Ref} : r ≤ s ↔ r.word ≤ s.word := Iff.rfl

/-- A reference is printed as `ref32:0x` and eight hexadecimal digits. -/
def text (r : Ref) : String := "ref32:0x" ++ String.ofList (Hex.padded 8 r.word.toNat)

end Ref

end CompressedRefs
