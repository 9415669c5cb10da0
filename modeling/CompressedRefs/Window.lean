import CompressedRefs.Address
import CompressedRefs.Ref

/-!
# The window of representable addresses

A reference stands for eight times its number, so references reach the
multiples of eight below `2 ^ 35` and no other address.  Encoding drops the
three low bits and keeps thirty-two; an address is representable when decoding
what is left gives it back.  `isRepresentable_iff` says in `Nat` which addresses
these are.

## Main definitions

* `alignment`, `addressLimit`, `maxAddress` — the shape of the window.
* `Ref.decode`, `Address.truncate` — to an address, and to a reference whatever is lost.
* `Address.Representable`, `Address.isRepresentable` — in arithmetic, and by decoding.
* `RangeError` — the refusal of an address.
* `Address.encode` — to a reference, or a refusal.
-/

namespace CompressedRefs

/-! ## Its shape -/

/-- How many low bits of an address a reference leaves out. -/
def alignShift : UInt64 := 3

/-- Every representable address is a multiple of this. -/
def alignment : UInt64 := 1 <<< alignShift

/-- The first address behind the window. -/
def addressLimit : UInt64 := 1 <<< (32 + alignShift)

/-- The largest representable address. -/
def maxAddress : Address := ⟨addressLimit - alignment⟩

@[simp] theorem toNat_alignment : alignment.toNat = 8 := rfl

@[simp] theorem toNat_addressLimit : addressLimit.toNat = 0x800000000 := rfl

theorem isPowerOfTwo_alignment : alignment.toNat.isPowerOfTwo := ⟨3, rfl⟩

/-! ## To and fro -/

/-- The address that a reference stands for. -/
def Ref.decode (r : Ref) : Address := ⟨r.word.toUInt64 <<< alignShift⟩

/-- The reference made of the thirty-two bits above the three lowest, whatever
the others hold. -/
def Address.truncate (a : Address) : Ref := ⟨(a.value >>> alignShift).toUInt32⟩

@[simp] theorem Ref.toNat_value_decode (r : Ref) : r.decode.value.toNat = 8 * r.word.toNat := by
  have h := r.word.toNat_lt
  simp only [decode, alignShift, UInt64.toNat_shiftLeft, UInt32.toNat_toUInt64, Nat.shiftLeft_eq]
  have : (3 : UInt64).toNat % 64 = 3 := rfl
  rw [this]
  omega

@[simp] theorem Address.toNat_word_truncate (a : Address) :
    a.truncate.word.toNat = a.value.toNat / 8 % 0x100000000 := by
  simp [truncate, alignShift, Nat.shiftRight_eq_div_pow]

/-! ## Representable addresses -/

/-- The addresses that references stand for: multiples of eight below `2 ^ 35`. -/
def Address.Representable (a : Address) : Prop :=
  a.value.toNat % 8 = 0 ∧ a.value.toNat < 0x800000000

instance (a : Address) : Decidable a.Representable :=
  inferInstanceAs (Decidable (_ ∧ _))

/-- Whether an address survives encoding and decoding. -/
def Address.isRepresentable (a : Address) : Bool := a.truncate.decode == a

@[simp] theorem Address.isRepresentable_iff (a : Address) :
    a.isRepresentable = true ↔ a.Representable := by
  rw [isRepresentable, beq_iff_eq, Address.ext_iff, ← UInt64.toNat_inj]
  simp only [Ref.toNat_value_decode, toNat_word_truncate, Representable]
  omega

theorem Address.isRepresentable_eq_false_iff (a : Address) :
    a.isRepresentable = false ↔ ¬ a.Representable := by
  rw [← Bool.not_eq_true, isRepresentable_iff]

theorem Ref.representable_decode (r : Ref) : r.decode.Representable := by
  have h := r.word.toNat_lt
  simp only [Address.Representable, toNat_value_decode]
  omega

@[simp] theorem Ref.truncate_decode (r : Ref) : r.decode.truncate = r := by
  have h := r.word.toNat_lt
  rw [Ref.ext_iff, ← UInt32.toNat_inj]
  simp only [Address.toNat_word_truncate, toNat_value_decode]
  omega

theorem Address.decode_truncate {a : Address} (h : a.Representable) : a.truncate.decode = a := by
  simpa [isRepresentable] using (isRepresentable_iff a).mpr h

/-- A list of representable addresses is the decoding of the references of its addresses. -/
theorem Address.map_decode_map_truncate {as : List Address} (h : ∀ a ∈ as, a.Representable) :
    (as.map truncate).map Ref.decode = as := by
  rw [List.map_map]
  exact (List.map_congr_left fun a ha => decode_truncate (h a ha)).trans as.map_id

/-- Nothing is cut off from a representable address. -/
theorem Address.eight_mul_toNat_word_truncate {a : Address} (h : a.Representable) :
    8 * a.truncate.word.toNat = a.value.toNat := by
  rw [← Ref.toNat_value_decode, decode_truncate h]

/-! ## Encoding -/

/-- The refusal of an address: it lies outside the window, or is no multiple of eight. -/
structure RangeError where
  /-- The address that was refused. -/
  address : Address
  deriving DecidableEq

namespace RangeError

/-- Whether the address is no multiple of eight. -/
def isMisaligned (e : RangeError) : Bool := !e.address.clearBelow alignment

/-- Whether the address lies at or behind the end of the window. -/
def exceedsWindow (e : RangeError) : Bool := decide (addressLimit ≤ e.address.value)

/-- The wording, which names the address and not the cause. -/
def message (e : RangeError) : String := "pointer " ++ e.address.text ++ " too big or misaligned"

@[simp] theorem isMisaligned_iff (e : RangeError) :
    e.isMisaligned = true ↔ e.address.value.toNat % 8 ≠ 0 := by
  have h := e.address.clearBelow_iff isPowerOfTwo_alignment
  rw [toNat_alignment] at h
  rw [isMisaligned, Bool.not_eq_true', ← Bool.not_eq_true, ne_eq, h]

@[simp] theorem exceedsWindow_iff (e : RangeError) :
    e.exceedsWindow = true ↔ 0x800000000 ≤ e.address.value.toNat := by
  rw [exceedsWindow, decide_eq_true_iff, UInt64.le_iff_toNat_le, toNat_addressLimit]

end RangeError

/-- The reference that stands for an address, or its refusal. -/
def Address.encode (a : Address) : Except RangeError Ref :=
  if a.isRepresentable then .ok a.truncate else .error ⟨a⟩

theorem Address.encode_of_representable {a : Address} (h : a.Representable) :
    a.encode = .ok a.truncate := by
  simp [encode, h]

theorem Address.encode_of_not_representable {a : Address} (h : ¬ a.Representable) :
    a.encode = .error ⟨a⟩ := by
  simp [encode, h]

@[simp] theorem Ref.encode_decode (r : Ref) : r.decode.encode = .ok r := by
  rw [Address.encode_of_representable r.representable_decode, truncate_decode]

end CompressedRefs
