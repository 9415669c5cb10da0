import CompressedRefs.Proofs.Samples.Positions
import Mathlib.Data.Set.Basic
import Mathlib.Data.Set.Operations

/-!
# What refused draws reach

The unrepresentable addresses of a stream are made of 64 bits, and the last of these chooses
the fault.  An even draw becomes the odd number behind it, so it is misaligned, and lies behind
the window if the draw did.  An odd draw gets the bit at the end of the window and loses its
three last bits, so it is aligned and behind the window.

Every odd address is reached, and every multiple of eight that has this bit: each is next to a
draw that makes it.  Two kinds of unrepresentable address are never reached, however long a
stream is: the even ones that are misaligned, and the multiples of eight behind the window
whose bit is clear, such as the one where a second window would end.

## Main statements

* `Address.isMisaligned_ofRefusedDraw_iff`, `Address.exceedsWindow_ofRefusedDraw_iff` — the
  fault of an address, from its draw.
* `Address.range_ofRefusedDraw` — the addresses that draws reach.
* `Address.refused_draws_reach` — these, and those that no draw reaches.
-/

namespace CompressedRefs.Address

variable {a : Address} {raw : UInt64} {n : Nat}

/-! ## The bit at the end of the window -/

theorem testBit_limit_iff (n : Nat) : n.testBit 35 = true ↔ n / 0x800000000 % 2 = 1 := by
  rw [Nat.testBit_eq_decide_div_mod_eq, decide_eq_true_iff]

theorem testBit_or_limit (n : Nat) : (n ||| 0x800000000).testBit 35 = true := by
  rw [Nat.testBit_or, Bool.or_eq_true]
  exact .inr (by decide)

/-- Setting the bit changes nothing where it is set. -/
theorem or_limit_of_testBit (h : n.testBit 35 = true) : n ||| 0x800000000 = n := by
  apply Nat.eq_of_testBit_eq
  intro i
  have hlimit : (0x800000000 : Nat).testBit i = decide (35 = i) := by
    simpa using Nat.testBit_two_pow (n := 35) (m := i)
  rw [Nat.testBit_or, hlimit]
  by_cases hi : 35 = i
  · subst hi
    simp [h]
  · simp [hi]

/-! ## The value of an address, from its draw -/

theorem toNat_value_ofRefusedDraw_of_even (h : raw.toNat % 2 = 0) :
    (ofRefusedDraw raw).value.toNat = raw.toNat + 1 := by
  have hraw : raw % 2 = 0 := by simpa [← UInt64.toNat_inj] using h
  have hdouble : 2 * (raw.toNat / 2) = raw.toNat := by omega
  have hor := Nat.two_pow_add_eq_or_of_lt (i := 1) (b := 1) (by decide) (raw.toNat / 2)
  rw [Nat.pow_one, hdouble] at hor
  rw [ofRefusedDraw, if_pos hraw, UInt64.toNat_or]
  exact hor.symm

theorem toNat_value_ofRefusedDraw_of_odd (h : raw.toNat % 2 = 1) :
    (ofRefusedDraw raw).value.toNat =
      (raw.toNat ||| 0x800000000) - (raw.toNat ||| 0x800000000) % 8 := by
  have hraw : ¬ raw % 2 = 0 := by simp [← UInt64.toNat_inj, h]
  rw [ofRefusedDraw, if_neg hraw, Word.toNat_clearLow _ isPowerOfTwo_alignment, toNat_alignment,
    UInt64.toNat_or, toNat_addressLimit]

/-! ## The fault -/

/-- A draw chooses by its last bit whether its address is misaligned. -/
theorem isMisaligned_ofRefusedDraw_iff (raw : UInt64) :
    (RangeError.mk (ofRefusedDraw raw)).isMisaligned = true ↔ raw.toNat % 2 = 0 := by
  rw [RangeError.isMisaligned_iff]
  dsimp only
  rcases Nat.mod_two_eq_zero_or_one raw.toNat with h | h
  · have hodd := ofRefusedDraw_of_even h
    omega
  · have haligned := (ofRefusedDraw_of_odd h).1
    omega

/-- An even draw does not step over the end of the window, which is even too. -/
theorem exceedsWindow_ofRefusedDraw_iff (raw : UInt64) :
    (RangeError.mk (ofRefusedDraw raw)).exceedsWindow = true ↔
      raw.toNat % 2 = 1 ∨ 0x800000000 ≤ raw.toNat := by
  rw [RangeError.exceedsWindow_iff]
  dsimp only
  rcases Nat.mod_two_eq_zero_or_one raw.toNat with h | h
  · have hvalue := toNat_value_ofRefusedDraw_of_even h
    omega
  · have hlimit := (ofRefusedDraw_of_odd h).2
    omega

/-! ## Which addresses are reached -/

/-- Rounding down to a multiple of eight leaves the bit at the end of the window alone. -/
theorem testBit_ofRefusedDraw_of_odd (h : raw.toNat % 2 = 1) :
    (ofRefusedDraw raw).value.toNat.testBit 35 = true := by
  have hbit := (testBit_limit_iff _).mp (testBit_or_limit raw.toNat)
  rw [testBit_limit_iff, toNat_value_ofRefusedDraw_of_odd h]
  omega

/-- An odd address is drawn from the even number in front of it. -/
theorem ofRefusedDraw_sub_one (h : a.value.toNat % 2 = 1) : ofRefusedDraw (a.value - 1) = a := by
  have hne : a.value ≠ 0 := by
    intro h0
    simp [h0] at h
  have hpred := Word.toNat_sub_one hne
  have heven : (a.value - 1).toNat % 2 = 0 := by omega
  have hvalue := toNat_value_ofRefusedDraw_of_even heven
  rw [Address.ext_iff, ← UInt64.toNat_inj]
  omega

/-- A multiple of eight with the bit is drawn from the odd number behind it. -/
theorem ofRefusedDraw_add_one (h : 8 ∣ a.value.toNat) (hbit : a.value.toNat.testBit 35 = true) :
    ofRefusedDraw (a.value + 1) = a := by
  have hlt := a.value.toNat_lt
  have hsucc : (a.value + 1).toNat = a.value.toNat + 1 := by
    rw [UInt64.toNat_add, UInt64.toNat_one]
    exact Nat.mod_eq_of_lt (by omega)
  have hodd : (a.value + 1).toNat % 2 = 1 := by omega
  have hvalue := toNat_value_ofRefusedDraw_of_odd hodd
  have hset : (a.value + 1).toNat.testBit 35 = true := by
    rw [testBit_limit_iff] at hbit ⊢
    omega
  rw [or_limit_of_testBit hset] at hvalue
  rw [Address.ext_iff, ← UInt64.toNat_inj]
  omega

/-- The addresses that draws reach: all odd ones, and the multiples of eight that have the bit
at the end of the window. -/
theorem range_ofRefusedDraw :
    Set.range ofRefusedDraw =
      {a | a.value.toNat % 2 = 1} ∪ {a | 8 ∣ a.value.toNat ∧ a.value.toNat.testBit 35 = true} := by
  ext a
  constructor
  · rintro ⟨raw, rfl⟩
    rcases Nat.mod_two_eq_zero_or_one raw.toNat with h | h
    · exact .inl (ofRefusedDraw_of_even h)
    · exact .inr ⟨Nat.dvd_of_mod_eq_zero (ofRefusedDraw_of_odd h).1,
        testBit_ofRefusedDraw_of_odd h⟩
  · rintro (h | ⟨h, hbit⟩)
    · exact ⟨a.value - 1, ofRefusedDraw_sub_one h⟩
    · exact ⟨a.value + 1, ofRefusedDraw_add_one h hbit⟩

/-- What is unrepresentable and never drawn: the even addresses that are misaligned, and the
aligned ones behind the window in which the bit is clear. -/
theorem not_representable_diff_range_ofRefusedDraw :
    {a | ¬ a.Representable} \ Set.range ofRefusedDraw =
      {a | a.value.toNat % 2 = 0 ∧ ¬ 8 ∣ a.value.toNat} ∪
        {a | 8 ∣ a.value.toNat ∧ 0x800000000 ≤ a.value.toNat ∧
          a.value.toNat.testBit 35 = false} := by
  rw [range_ofRefusedDraw]
  ext a
  simp only [Set.mem_sdiff, Set.mem_union, Set.mem_ofPred_eq, Representable]
  cases a.value.toNat.testBit 35 with
  | false =>
    simp only [Bool.false_eq_true, and_false, or_false, and_true]
    omega
  | true =>
    simp only [Bool.true_eq_false, and_false, or_false, and_true]
    omega

/-- **A draw chooses its fault, and draws do not reach every fault.**  The address of an even
draw is misaligned and that of an odd one is not; it exceeds the window if the draw is odd or
does so itself.  The addresses that streams can give are all odd ones, and the multiples of
eight in which the bit at the end of the window is set: each of them is drawn from some number.
Of the other unrepresentable addresses none is, neither an even one that is misaligned nor an
aligned one behind the window with that bit clear, such as `2 ^ 36`. -/
theorem refused_draws_reach :
    (∀ s : AddressStream, s.unrepresentable.1 = ofRefusedDraw (s.key.doubleWord s.position)) ∧
    (∀ raw : UInt64,
      let e : RangeError := ⟨ofRefusedDraw raw⟩
      (ofRefusedDraw raw).encode = .error e ∧
        (e.isMisaligned = true ↔ raw.toNat % 2 = 0) ∧
        (e.exceedsWindow = true ↔ raw.toNat % 2 = 1 ∨ 0x800000000 ≤ raw.toNat)) ∧
    Set.range ofRefusedDraw =
      {a | a.value.toNat % 2 = 1} ∪
        {a | 8 ∣ a.value.toNat ∧ a.value.toNat.testBit 35 = true} ∧
    {a | ¬ a.Representable} \ Set.range ofRefusedDraw =
      {a | a.value.toNat % 2 = 0 ∧ ¬ 8 ∣ a.value.toNat} ∪
        {a | 8 ∣ a.value.toNat ∧ 0x800000000 ≤ a.value.toNat ∧
          a.value.toNat.testBit 35 = false} ∧
    (⟨0x1000000000⟩ : Address) ∈ {a | ¬ a.Representable} \ Set.range ofRefusedDraw := by
  refine ⟨fun s => rfl, ?_, range_ofRefusedDraw, not_representable_diff_range_ofRefusedDraw, ?_⟩
  · intro raw e
    exact ⟨encode_of_not_representable (not_representable_ofRefusedDraw raw),
      isMisaligned_ofRefusedDraw_iff raw, exceedsWindow_ofRefusedDraw_iff raw⟩
  · rw [not_representable_diff_range_ofRefusedDraw]
    exact .inr ⟨by decide, by decide, by decide⟩

end CompressedRefs.Address
