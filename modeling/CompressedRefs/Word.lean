/-!
# Words of 64 bits

Words put together from two halves, sums of machine words that say when they
leave the word, rounding up to a power of two, and the test for being one.  Each
operation has one lemma that reads it in `Nat`, where no sum wraps; the bit
tricks stay in this module.

## Main definitions

* `Word.ofHalves` — two words of 32 bits as one.
* `Word.add?`, `Word.addClamped` — sums that refuse, or stop at, the end of the word.
* `Word.isPowerOfTwo` — the test on bits.
* `Word.low` — the part of a word below a power of two.
* `Word.roundUp?` — the next multiple of a power of two.
-/

namespace CompressedRefs.Word

/-- The largest word. -/
def top : UInt64 := 0xFFFFFFFFFFFFFFFF

@[simp] theorem toNat_top : top.toNat = 0xFFFFFFFFFFFFFFFF := rfl

/-! ## Halves -/

/-- Two words of 32 bits as one, the first the less significant. -/
def ofHalves (low high : UInt32) : UInt64 := low.toUInt64 ||| high.toUInt64 <<< 32

/-- The halves do not overlap, so joining their bits adds them up. -/
theorem toNat_ofHalves (low high : UInt32) :
    (ofHalves low high).toNat = low.toNat + 0x100000000 * high.toNat := by
  have hlow := low.toNat_lt
  have hhigh := high.toNat_lt
  have hshift : (high.toUInt64 <<< 32).toNat = high.toNat <<< 32 := by
    rw [UInt64.toNat_shiftLeft, UInt32.toNat_toUInt64]
    exact Nat.mod_eq_of_lt (by rw [Nat.shiftLeft_eq]; simp; omega)
  rw [ofHalves, UInt64.toNat_or, hshift, UInt32.toNat_toUInt64, Nat.or_comm,
    ← Nat.shiftLeft_add_eq_or_of_lt hlow, Nat.shiftLeft_eq]
  omega

/-! ## Sums -/

/-- The sum of two words, or nothing when it does not fit in a word. -/
def add? (a b : UInt64) : Option UInt64 :=
  if a.toNat + b.toNat < 0x10000000000000000 then some (a + b) else none

/-- The sum of two words, or the largest word when it does not fit. -/
def addClamped (a b : UInt64) : UInt64 := (add? a b).getD top

theorem add?_eq_some_iff {a b c : UInt64} : add? a b = some c ↔ c.toNat = a.toNat + b.toNat := by
  have hc := c.toNat_lt
  unfold add?
  split
  · rename_i h
    rw [Option.some.injEq, ← UInt64.toNat_inj, UInt64.toNat_add, Nat.mod_eq_of_lt h]
    exact eq_comm
  · simp only [reduceCtorEq, false_iff]
    omega

theorem add?_eq_none_iff {a b : UInt64} : add? a b = none ↔ 0x10000000000000000 ≤ a.toNat + b.toNat := by
  unfold add?
  split <;> simp <;> omega

theorem toNat_addClamped (a b : UInt64) :
    (addClamped a b).toNat = min (a.toNat + b.toNat) 0xFFFFFFFFFFFFFFFF := by
  unfold addClamped
  cases h : add? a b with
  | none => rw [add?_eq_none_iff] at h; simp; omega
  | some c =>
    rw [add?_eq_some_iff] at h
    have := c.toNat_lt
    simp [← h]; omega

/-! ## Powers of two -/

/-- Whether exactly one bit of the word is set. -/
def isPowerOfTwo (n : UInt64) : Bool := n != 0 && n &&& (n - 1) == 0

theorem toNat_sub_one {n : UInt64} (h : n ≠ 0) : (n - 1).toNat = n.toNat - 1 := by
  have hn : n.toNat ≠ 0 := fun h' => h (UInt64.toNat_inj.mp h')
  have : (1 : UInt64) ≤ n := UInt64.le_iff_toNat_le.mpr (by simp; omega)
  simpa using UInt64.toNat_sub_of_le n 1 this

theorem isPowerOfTwo_iff (n : UInt64) : isPowerOfTwo n = true ↔ n.toNat.isPowerOfTwo := by
  rw [← Nat.ne_zero_and_sub_one_eq_zero_iff_isPowerOfTwo]
  by_cases h : n = 0
  · subst h; decide
  · have hn : n.toNat ≠ 0 := fun h' => h (UInt64.toNat_inj.mp h')
    simp [isPowerOfTwo, h, hn, ← UInt64.toNat_inj, toNat_sub_one h]

/-- The part of `a` below the power of two `align`. -/
def low (a align : UInt64) : UInt64 := a &&& (align - 1)

theorem toNat_low (a : UInt64) {align : UInt64} (h : align.toNat.isPowerOfTwo) :
    (low a align).toNat = a.toNat % align.toNat := by
  obtain ⟨k, hk⟩ := h
  have h0 : align ≠ 0 := fun h' => by
    have := Nat.two_pow_pos k
    rw [← hk, h'] at this
    simp at this
  rw [low, UInt64.toNat_and, toNat_sub_one h0, hk, Nat.and_two_pow_sub_one_eq_mod]

/-! ## Rounding -/

/-- A word is its bits inside a mask and its bits outside, added up. -/
theorem toNat_and_add_toNat_and_not (a m : UInt64) :
    (a &&& m).toNat + (a &&& ~~~m).toNat = a.toNat := by
  have h : (a.toBitVec &&& m.toBitVec) &&& (a.toBitVec &&& ~~~m.toBitVec) = 0#64 := by
    ext i
    simp
    grind
  have h' : (a.toBitVec &&& m.toBitVec) ||| (a.toBitVec &&& ~~~m.toBitVec) = a.toBitVec := by
    rw [← BitVec.and_or_distrib_left, BitVec.or_not_self, BitVec.and_allOnes]
  have h'' := BitVec.toNat_add_of_and_eq_zero h
  rw [BitVec.add_eq_or_of_and_eq_zero _ _ h, h'] at h''
  exact h''.symm

/-- The least multiple of the power of two `align` that is not below `n`, or
nothing when it does not fit in a word. -/
def roundUp? (align n : UInt64) : Option UInt64 :=
  (add? n (align - 1)).map fun m => m &&& ~~~(align - 1)

theorem toNat_clearLow (a : UInt64) {align : UInt64} (h : align.toNat.isPowerOfTwo) :
    (a &&& ~~~(align - 1)).toNat = a.toNat - a.toNat % align.toNat := by
  have h₁ := toNat_and_add_toNat_and_not a (align - 1)
  have h₂ := toNat_low a h
  rw [low] at h₂
  omega

theorem roundUp?_eq_some_iff {align n r : UInt64} (h : align.toNat.isPowerOfTwo) :
    roundUp? align n = some r ↔
      n.toNat + (align.toNat - 1) < 0x10000000000000000 ∧
        r.toNat = (n.toNat + (align.toNat - 1)) / align.toNat * align.toNat := by
  have h0 : align ≠ 0 := fun h' => by subst h'; exact Nat.not_isPowerOfTwo_zero h
  have hs := toNat_sub_one h0
  unfold roundUp?
  cases hm : add? n (align - 1) with
  | none =>
    rw [add?_eq_none_iff, hs] at hm
    simp only [Option.map_none, reduceCtorEq, false_iff]
    omega
  | some m =>
    rw [add?_eq_some_iff, hs] at hm
    have hlt := m.toNat_lt
    have hd := Nat.div_add_mod (n.toNat + (align.toNat - 1)) align.toNat
    rw [Nat.mul_comm] at hd
    rw [Option.map_some, Option.some.injEq, ← UInt64.toNat_inj, toNat_clearLow m h, hm]
    omega

end CompressedRefs.Word
