import CompressedRefs.Ref

/-!
# References as four bytes

A reference is stored as four bytes, the least significant first or last.  There
is no length in front and no padding behind, so a run of references is the run of
their bytes.

## Main definitions

* `ByteOrder`, `ByteOrder.native` — the two orders, and that of the machine.
* `ByteOrder.serialize`, `ByteOrder.deserialize` — to four bytes and back.
-/

namespace CompressedRefs

/-- Which end of a number comes first. -/
inductive ByteOrder
  /-- The least significant byte comes first. -/
  | little
  /-- The most significant byte comes first. -/
  | big
  deriving DecidableEq

namespace ByteOrder

/-- The order of the machine. -/
def native : ByteOrder := .little

instance : Inhabited ByteOrder := ⟨.little⟩

/-- The other order. -/
def swap : ByteOrder → ByteOrder
  | little => big
  | big => little

/-- The four bytes of a reference. -/
def serialize : ByteOrder → Ref → List UInt8
  | little, r =>
    [r.word.toUInt8, (r.word >>> 8).toUInt8, (r.word >>> 16).toUInt8, (r.word >>> 24).toUInt8]
  | big, r =>
    [(r.word >>> 24).toUInt8, (r.word >>> 16).toUInt8, (r.word >>> 8).toUInt8, r.word.toUInt8]

/-- The reference that bytes spell. -/
def deserialize : ByteOrder → List UInt8 → Ref
  | little, bytes => ⟨bytes.foldr (fun b n => n * 256 + b.toUInt32) 0⟩
  | big, bytes => ⟨bytes.foldl (fun n b => n * 256 + b.toUInt32) 0⟩

@[simp] theorem length_serialize (order : ByteOrder) (r : Ref) :
    (order.serialize r).length = 4 := by
  cases order <;> rfl

theorem serialize_swap (order : ByteOrder) (r : Ref) :
    order.swap.serialize r = (order.serialize r).reverse := by
  cases order <;> rfl

theorem deserialize_swap (order : ByteOrder) (bytes : List UInt8) :
    order.swap.deserialize bytes = order.deserialize bytes.reverse := by
  cases order <;> simp [swap, deserialize]

/-- Four bytes are the digits of a number in base 256. -/
theorem toNat_word_deserialize_little (b₀ b₁ b₂ b₃ : UInt8) :
    (little.deserialize [b₀, b₁, b₂, b₃]).word.toNat =
      b₀.toNat + 0x100 * b₁.toNat + 0x10000 * b₂.toNat + 0x1000000 * b₃.toNat := by
  have h₀ := b₀.toNat_lt
  have h₁ := b₁.toNat_lt
  have h₂ := b₂.toNat_lt
  have h₃ := b₃.toNat_lt
  simp [deserialize]
  omega

theorem deserialize_serialize (order : ByteOrder) (r : Ref) :
    order.deserialize (order.serialize r) = r := by
  have hr := r.word.toNat_lt
  have little_case : little.deserialize (little.serialize r) = r := by
    rw [Ref.ext_iff, ← UInt32.toNat_inj, serialize, toNat_word_deserialize_little]
    simp [Nat.shiftRight_eq_div_pow]
    omega
  cases order with
  | little => exact little_case
  | big =>
    have h := deserialize_swap little (big.serialize r)
    rw [← serialize_swap] at h
    exact h.trans little_case

theorem serialize_deserialize (order : ByteOrder) {bytes : List UInt8} (h : bytes.length = 4) :
    order.serialize (order.deserialize bytes) = bytes := by
  have little_case : ∀ bs : List UInt8, bs.length = 4 →
      little.serialize (little.deserialize bs) = bs := by
    intro bs hbs
    match bs, hbs with
    | [b₀, b₁, b₂, b₃], _ =>
      have hn := toNat_word_deserialize_little b₀ b₁ b₂ b₃
      have h₀ := b₀.toNat_lt
      have h₁ := b₁.toNat_lt
      have h₂ := b₂.toNat_lt
      have h₃ := b₃.toNat_lt
      simp only [serialize, List.cons.injEq, ← UInt8.toNat_inj, and_true]
      simp [Nat.shiftRight_eq_div_pow, hn]
      omega
  cases order with
  | little => exact little_case bytes h
  | big =>
    have h' := little_case bytes.reverse (by simpa using h)
    have h₁ := serialize_swap little (little.deserialize bytes.reverse)
    have h₂ := deserialize_swap little bytes
    rw [h', List.reverse_reverse] at h₁
    rw [← h₂] at h₁
    exact h₁

end ByteOrder

end CompressedRefs
