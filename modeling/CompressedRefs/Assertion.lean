import CompressedRefs.Window

/-!
# Broken preconditions

Two operations ask something of their caller and fail when it does not hold:
encoding without an answer for unrepresentable addresses, and the alignment test
for an alignment that is no power of two.  Such a failure is a value here, with
its wording.

## Main definitions

* `AssertionFailure` — which precondition failed, and its wording.
* `Address.encodeAsserted` — the reference of an address that has to be representable.
* `Address.isAlignedTo` — whether an address is a multiple of a power of two.
-/

namespace CompressedRefs

/-- A precondition that its caller broke. -/
inductive AssertionFailure
  /-- An address that had to be representable is not. -/
  | unrepresentable (error : RangeError)
  /-- An alignment is not a power of two. -/
  | alignmentNotPowerOfTwo (align : UInt64)
  deriving DecidableEq

/-- The wording of a failure. -/
def AssertionFailure.message : AssertionFailure → String
  | .unrepresentable e => e.message
  | .alignmentNotPowerOfTwo _ => "assertion failed: align.is_power_of_two()"

namespace Address

/-- The reference of an address, which fails on an unrepresentable one. -/
def encodeAsserted (a : Address) : Except AssertionFailure Ref :=
  if a.isRepresentable then .ok a.truncate else .error (.unrepresentable ⟨a⟩)

/-- Whether an address is a multiple of `align`, which has to be a power of two. -/
def isAlignedTo (a : Address) (align : UInt64) : Except AssertionFailure Bool :=
  if Word.isPowerOfTwo align then .ok (a.clearBelow align)
  else .error (.alignmentNotPowerOfTwo align)

theorem encodeAsserted_of_representable {a : Address} (h : a.Representable) :
    a.encodeAsserted = .ok a.truncate := by
  simp [encodeAsserted, h]

theorem encodeAsserted_of_not_representable {a : Address} (h : ¬ a.Representable) :
    a.encodeAsserted = .error (.unrepresentable ⟨a⟩) := by
  simp [encodeAsserted, h]

theorem isAlignedTo_of_isPowerOfTwo (a : Address) {align : UInt64}
    (h : align.toNat.isPowerOfTwo) : a.isAlignedTo align = .ok (a.clearBelow align) :=
  if_pos ((Word.isPowerOfTwo_iff align).mpr h)

theorem isAlignedTo_of_not_isPowerOfTwo (a : Address) {align : UInt64}
    (h : ¬ align.toNat.isPowerOfTwo) :
    a.isAlignedTo align = .error (.alignmentNotPowerOfTwo align) :=
  if_neg (mt (Word.isPowerOfTwo_iff align).mp h)

end Address

end CompressedRefs
