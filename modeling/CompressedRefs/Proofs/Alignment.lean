import CompressedRefs.Assertion

/-!
# Alignment is divisibility

The alignment test looks at the bits of an address below an alignment, which are the bits
inside the predecessor of the alignment.  For a power of two that is the remainder of a
division, and for nothing else: any other number is refused before its predecessor is taken,
and zero, which has none, is among those.

So an address passes the test if and only if the alignment is a power of two that divides it,
and what holds of divisors holds of alignments.  A refused address is classified by this test.

## Main statements

* `Address.isAlignedTo_eq_ok_true_iff` — what passing the test means.
* `Address.isAlignedTo_of_le` — an address with a larger alignment has a smaller one.
* `RangeError.isAlignedTo_alignment` — refused addresses are classified by the test.
* `Address.isAlignedTo_divides` — all of it.
-/

namespace CompressedRefs

namespace Address

variable {a b c : Address} {align p q : UInt64}

/-! ## The test -/

theorem clearBelow_iff_dvd (a : Address) (h : align.toNat.isPowerOfTwo) :
    a.clearBelow align = true ↔ align.toNat ∣ a.value.toNat := by
  rw [clearBelow_iff a h, Nat.dvd_iff_mod_eq_zero]

/-- The test fails if and only if the alignment is no power of two. -/
theorem isAlignedTo_eq_error_iff :
    a.isAlignedTo align = .error (.alignmentNotPowerOfTwo align) ↔
      ¬ align.toNat.isPowerOfTwo := by
  constructor
  · intro h hpower
    rw [isAlignedTo_of_isPowerOfTwo a hpower] at h
    cases h
  · exact isAlignedTo_of_not_isPowerOfTwo a

/-- To pass the test is to be divided by a power of two. -/
theorem isAlignedTo_eq_ok_true_iff :
    a.isAlignedTo align = .ok true ↔ align.toNat.isPowerOfTwo ∧ align.toNat ∣ a.value.toNat := by
  by_cases h : align.toNat.isPowerOfTwo
  · rw [isAlignedTo_of_isPowerOfTwo a h, Except.ok.injEq, clearBelow_iff_dvd a h, and_iff_right h]
  · rw [isAlignedTo_of_not_isPowerOfTwo a h]
    simp [h]

/-- The predecessor of an alignment is not below zero. -/
theorem toNat_pred_add_one (h : align.toNat.isPowerOfTwo) : (align - 1).toNat + 1 = align.toNat := by
  have hpos := Nat.pos_of_isPowerOfTwo h
  have hne : align ≠ 0 := by
    rintro rfl
    exact absurd hpos (by decide)
  rw [Word.toNat_sub_one hne, Nat.sub_add_cancel hpos]

/-! ## Alignments of one address, and of several -/

/-- Of two powers of two the smaller divides the larger. -/
theorem dvd_of_isPowerOfTwo_of_le {m n : Nat} (hm : m.isPowerOfTwo) (hn : n.isPowerOfTwo)
    (hle : m ≤ n) : m ∣ n := by
  obtain ⟨i, rfl⟩ := hm
  obtain ⟨j, rfl⟩ := hn
  exact Nat.pow_dvd_pow 2 ((Nat.pow_le_pow_iff_right (by decide)).mp hle)

/-- An address with a larger alignment has every smaller one. -/
theorem isAlignedTo_of_le (hp : p.toNat.isPowerOfTwo) (hle : p ≤ q)
    (h : a.isAlignedTo q = .ok true) : a.isAlignedTo p = .ok true := by
  obtain ⟨hq, hdvd⟩ := isAlignedTo_eq_ok_true_iff.mp h
  have hpq := dvd_of_isPowerOfTwo_of_le hp hq (UInt64.le_iff_toNat_le.mp hle)
  exact isAlignedTo_eq_ok_true_iff.mpr ⟨hp, Nat.dvd_trans hpq hdvd⟩

theorem isAlignedTo_of_eq_add (ha : a.isAlignedTo p = .ok true) (hb : b.isAlignedTo p = .ok true)
    (h : c.value.toNat = a.value.toNat + b.value.toNat) : c.isAlignedTo p = .ok true := by
  obtain ⟨hp, hdvda⟩ := isAlignedTo_eq_ok_true_iff.mp ha
  obtain ⟨-, hdvdb⟩ := isAlignedTo_eq_ok_true_iff.mp hb
  rw [isAlignedTo_eq_ok_true_iff, h]
  exact ⟨hp, Nat.dvd_add hdvda hdvdb⟩

/-- A difference is aligned if both ends are, since a divisor of a sum and of one part of it
divides the other. -/
theorem isAlignedTo_of_add_eq (ha : a.isAlignedTo p = .ok true) (hb : b.isAlignedTo p = .ok true)
    (h : c.value.toNat + b.value.toNat = a.value.toNat) : c.isAlignedTo p = .ok true := by
  obtain ⟨hp, hdvda⟩ := isAlignedTo_eq_ok_true_iff.mp ha
  obtain ⟨-, hdvdb⟩ := isAlignedTo_eq_ok_true_iff.mp hb
  rw [← h] at hdvda
  exact isAlignedTo_eq_ok_true_iff.mpr ⟨hp, (Nat.dvd_add_left hdvdb).mp hdvda⟩

end Address

/-- A refused address is misaligned if it fails the test for eight, which is a power of two. -/
theorem RangeError.isAlignedTo_alignment (e : RangeError) :
    e.address.isAlignedTo alignment = .ok (!e.isMisaligned) := by
  rw [Address.isAlignedTo_of_isPowerOfTwo _ isPowerOfTwo_alignment, isMisaligned, Bool.not_not]

/-- **The alignment test is divisibility.**  It fails if and only if the alignment is no power
of two, zero included, so that a predecessor is taken only where there is one; otherwise it
tells whether the alignment divides the address.  An address that passes it for one power of
two passes it for every smaller one, and where two addresses pass it, so do their sum and
their difference, as far as these are addresses.  Misaligned is what fails it for eight. -/
theorem Address.isAlignedTo_divides :
    (∀ (a : Address) (align : UInt64),
      (a.isAlignedTo align = .error (.alignmentNotPowerOfTwo align) ↔
        ¬ align.toNat.isPowerOfTwo) ∧
      (align.toNat.isPowerOfTwo → (align - 1).toNat + 1 = align.toNat ∧
        ∃ passes, a.isAlignedTo align = .ok passes ∧
          (passes = true ↔ align.toNat ∣ a.value.toNat))) ∧
    (∀ (a : Address) (p q : UInt64), p.toNat.isPowerOfTwo → q.toNat.isPowerOfTwo → p ≤ q →
      a.isAlignedTo q = .ok true → a.isAlignedTo p = .ok true) ∧
    (∀ (a b : Address) (p : UInt64), a.isAlignedTo p = .ok true → b.isAlignedTo p = .ok true →
      ∀ c : Address,
        (c.value.toNat = a.value.toNat + b.value.toNat → c.isAlignedTo p = .ok true) ∧
        (c.value.toNat + b.value.toNat = a.value.toNat → c.isAlignedTo p = .ok true)) ∧
    ∀ e : RangeError, e.address.isAlignedTo alignment = .ok (!e.isMisaligned) := by
  refine ⟨?_, ?_, ?_, RangeError.isAlignedTo_alignment⟩
  · intro a align
    refine ⟨isAlignedTo_eq_error_iff, ?_⟩
    intro h
    exact ⟨toNat_pred_add_one h, a.clearBelow align, isAlignedTo_of_isPowerOfTwo a h,
      clearBelow_iff_dvd a h⟩
  · intro a p q hp _ hle h
    exact isAlignedTo_of_le hp hle h
  · intro a b p ha hb c
    exact ⟨isAlignedTo_of_eq_add ha hb, isAlignedTo_of_add_eq ha hb⟩

/-- The largest alignment there is, and an address in each direction from it that is a multiple
of eight and no more.  Twelve and zero are no alignments. -/
theorem Address.isAlignedTo_divides_of_largest :
    let a : Address := ⟨0x8000000000000000⟩
    a.isAlignedTo 0x8000000000000000 = .ok true ∧ a.isAlignedTo 8 = .ok true ∧
      (⟨0x8000000000000018⟩ : Address).isAlignedTo 8 = .ok true ∧
      (⟨0x7FFFFFFFFFFFFFE8⟩ : Address).isAlignedTo 8 = .ok true ∧
      a.isAlignedTo 12 = .error (.alignmentNotPowerOfTwo 12) ∧
      a.isAlignedTo 0 = .error (.alignmentNotPowerOfTwo 0) := by
  intro a
  obtain ⟨htest, hsmaller, hsum, -⟩ := isAlignedTo_divides
  have hlargest : (0x8000000000000000 : UInt64).toNat.isPowerOfTwo := ⟨63, rfl⟩
  have height : (8 : UInt64).toNat.isPowerOfTwo := ⟨3, rfl⟩
  have ha : a.isAlignedTo 0x8000000000000000 = .ok true :=
    isAlignedTo_eq_ok_true_iff.mpr ⟨hlargest, Nat.dvd_refl _⟩
  have ha' : a.isAlignedTo 8 = .ok true := hsmaller a 8 _ height hlargest (by decide) ha
  have hb : (⟨24⟩ : Address).isAlignedTo 8 = .ok true := rfl
  refine ⟨ha, ha', (hsum a ⟨24⟩ 8 ha' hb _).1 rfl, (hsum a ⟨24⟩ 8 ha' hb _).2 rfl, ?_, ?_⟩
  · exact (htest a 12).1.mpr (by rw [← Word.isPowerOfTwo_iff]; decide)
  · exact (htest a 0).1.mpr Nat.not_isPowerOfTwo_zero

end CompressedRefs
