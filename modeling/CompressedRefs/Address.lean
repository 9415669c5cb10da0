import CompressedRefs.Text.Hex
import CompressedRefs.Word

/-!
# Addresses

An address is a 64-bit number that names a place in memory.  Nothing is ever
read through it here: it is compared, printed and tested for alignment.

## Main definitions

* `Address`, `Address.null` — the type and the address zero.
* `Address.text` — how an address is printed.
* `Address.clearBelow` — the alignment test on bits.
-/

namespace CompressedRefs

/-- A place in memory, by number. -/
@[ext] structure Address where
  /-- The number of the place. -/
  value : UInt64
  deriving DecidableEq

namespace Address

/-- The address that points nowhere. -/
def null : Address := ⟨0⟩

instance : Inhabited Address := ⟨null⟩

/-- Addresses are ordered by number. -/
instance : Ord Address := ⟨fun a b => compare a.value b.value⟩

instance : LT Address := ⟨fun a b => a.value < b.value⟩

instance : LE Address := ⟨fun a b => a.value ≤ b.value⟩

theorem compare_eq (a b : Address) : compare a b = compare a.value b.value := rfl

theorem lt_def {a b : Address} : a < b ↔ a.value < b.value := Iff.rfl

theorem le_def {a b : Address} : a ≤ b ↔ a.value ≤ b.value := Iff.rfl

/-- An address is printed as `0x` and its hexadecimal digits. -/
def text (a : Address) : String := "0x" ++ String.ofList (Hex.digits a.value.toNat)

@[simp] theorem toList_text (a : Address) :
    a.text.toList = '0' :: 'x' :: Hex.digits a.value.toNat := by
  simp [text]

/-- Whether no bit of the address below the power of two `align` is set. -/
def clearBelow (a : Address) (align : UInt64) : Bool := Word.low a.value align == 0

theorem clearBelow_iff (a : Address) {align : UInt64} (h : align.toNat.isPowerOfTwo) :
    a.clearBelow align = true ↔ a.value.toNat % align.toNat = 0 := by
  rw [clearBelow, beq_iff_eq, ← UInt64.toNat_inj, Word.toNat_low a.value h]
  rfl

end Address

end CompressedRefs
