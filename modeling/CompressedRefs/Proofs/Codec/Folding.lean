import CompressedRefs.Codec
import Mathlib.Data.Nat.ModEq
import Mathlib.Order.Bounds.Defs

/-!
# What is lost without an assertion

A codec that does not assert has a reference for every address.  What it keeps of an address
is the place inside the window that remains when the window is folded over on itself: the
multiple of the window in front of it is lost, and so are the bytes behind the last multiple
of eight.  The two losses do not meet, so it does not matter that one operation on bits makes
them both.

The result is an address like any other.  It is never a refusal, it may be that of something
else, and the only way to tell is to have the first address still at hand.

## Main definitions

* `Address.folded` — the representable address that is left of an address.
* `Codec.roundTrip` — what comes back after an encoding without a refusal.

## Main statements

* `Address.foldsTo_folded` — where in the window an address is folded to.
* `Address.truncate_eq_truncate_iff` — which addresses are folded to the same place.
* `Codec.encodeUnchecked_folds` — the encoding, with its assertion and without.
-/

namespace CompressedRefs

namespace Address

variable {a b : Address}

/-- The address that is left when the bits which do not fit a reference are lost. -/
def folded (a : Address) : Address := a.truncate.decode

/-- Folding takes the remainder by the size of the window and drops its last three bits. -/
theorem toNat_value_folded (a : Address) :
    a.folded.value.toNat = a.value.toNat % 0x800000000 - a.value.toNat % 8 := by
  rw [folded, Ref.toNat_value_decode, toNat_word_truncate]
  omega

/-- The address `p` is what folding leaves of `a`: its place in the window, rounded down to a
multiple of eight. -/
structure FoldsTo (a p : Address) : Prop where
  value : p.value.toNat = a.value.toNat % 0x800000000 - a.value.toNat % 8
  greatest : IsGreatest {n | 8 ∣ n ∧ n ≤ a.value.toNat % 0x800000000} p.value.toNat
  representable : p.Representable
  le : p ≤ a
  eq_iff : p = a ↔ a.Representable

/-- Rounding down goes to the largest multiple, since the window is itself a multiple of eight. -/
theorem isGreatest_folded (a : Address) :
    IsGreatest {n | 8 ∣ n ∧ n ≤ a.value.toNat % 0x800000000} a.folded.value.toNat := by
  rw [toNat_value_folded]
  constructor
  · constructor
    · omega
    · exact Nat.sub_le _ _
  · rintro n ⟨hdvd, hle⟩
    omega

theorem folded_le (a : Address) : a.folded ≤ a := by
  rw [le_def, UInt64.le_iff_toNat_le, toNat_value_folded]
  omega

/-- Nothing is lost of a representable address, and something of every other one. -/
theorem folded_eq_iff (a : Address) : a.folded = a ↔ a.Representable := by
  rw [← isRepresentable_iff, isRepresentable, beq_iff_eq, folded]

theorem foldsTo_folded (a : Address) : FoldsTo a a.folded where
  value := a.toNat_value_folded
  greatest := a.isGreatest_folded
  representable := a.truncate.representable_decode
  le := a.folded_le
  eq_iff := a.folded_eq_iff

@[simp] theorem folded_folded (a : Address) : a.folded.folded = a.folded :=
  a.folded.folded_eq_iff.mpr a.truncate.representable_decode

/-- Two addresses have one reference if their cells of eight bytes are the same, or whole
windows apart. -/
theorem truncate_eq_truncate_iff :
    a.truncate = b.truncate ↔ a.value.toNat / 8 ≡ b.value.toNat / 8 [MOD 0x100000000] := by
  rw [Ref.ext_iff, ← UInt32.toNat_inj, toNat_word_truncate, toNat_word_truncate]
  rfl

theorem eq_of_truncate_eq (ha : a.Representable) (hb : b.Representable)
    (h : a.truncate = b.truncate) : a = b := by
  rw [← decode_truncate ha, h, decode_truncate hb]

/-- Inside the window only the bytes of one cell are folded together. -/
theorem div_eq_or_le_of_truncate_eq (h : a.truncate = b.truncate) :
    a.value.toNat / 8 = b.value.toNat / 8 ∨
      0x800000000 ≤ a.value.toNat ∨ 0x800000000 ≤ b.value.toNat := by
  have hmod : a.value.toNat / 8 % 0x100000000 = b.value.toNat / 8 % 0x100000000 :=
    truncate_eq_truncate_iff.mp h
  omega

/-- Of two addresses that share a reference, one at least would have been refused. -/
theorem not_representable_or_of_truncate_eq (hne : a ≠ b) (h : a.truncate = b.truncate) :
    ¬ a.Representable ∨ ¬ b.Representable := by
  by_cases ha : a.Representable
  · exact .inr fun hb => hne (eq_of_truncate_eq ha hb h)
  · exact .inl ha

end Address

namespace Codec

variable {c : Codec}

theorem encodeUnchecked_of_not_validate (hc : c.validateUnchecked = false) (a : Address) :
    c.encodeUnchecked a = .ok a.truncate := by
  simp [encodeUnchecked, hc]

/-- With its assertion on, the unchecked encoding loses nothing. -/
theorem encodeUnchecked_of_validate (hc : c.validateUnchecked = true) (a : Address) :
    c.encodeUnchecked a =
      if a.Representable then .ok a.truncate else .error (.unrepresentable ⟨a⟩) := by
  split
  · rename_i ha
    exact c.encodeUnchecked_of_representable ha
  · rename_i ha
    exact encodeUnchecked_of_not_representable hc ha

/-- The address that comes back when an address is encoded without a refusal and decoded. -/
def roundTrip (c : Codec) (a : Address) : Except AssertionFailure Address :=
  (c.encodeUnchecked a).map c.decode

theorem roundTrip_of_not_validate (hc : c.validateUnchecked = false) (a : Address) :
    c.roundTrip a = .ok a.folded := by
  rw [roundTrip, encodeUnchecked_of_not_validate hc]
  rfl

/-- **Without its assertion the encoding folds all addresses into the window.**  The reference
is the eighth of the address in thirty-two bits.  What comes back is the last multiple of
eight in front of the address, less a multiple of the window: it is representable, it comes
back as itself, and it is the address only if that was representable too.  Two addresses have
one reference if and only if their eighths agree in thirty-two bits.  Two different ones that
do lie in one cell unless one of them is behind the window, and in either case one of them is
unrepresentable.  With its assertion the encoding fails on the unrepresentable addresses and
gives the same references for the rest. -/
theorem encodeUnchecked_folds {loose strict : Codec} (hloose : loose.validateUnchecked = false)
    (hstrict : strict.validateUnchecked = true) :
    (∀ a : Address, ∃ (r : Ref) (p : Address),
      loose.encodeUnchecked a = .ok r ∧ r.word.toNat = a.value.toNat / 8 % 0x100000000 ∧
      loose.roundTrip a = .ok p ∧ a.FoldsTo p ∧ loose.roundTrip p = .ok p ∧
      strict.encodeUnchecked a =
        if a.Representable then .ok r else .error (.unrepresentable ⟨a⟩)) ∧
    ∀ a b : Address,
      (loose.encodeUnchecked a = loose.encodeUnchecked b ↔
        a.value.toNat / 8 ≡ b.value.toNat / 8 [MOD 0x100000000]) ∧
      (a ≠ b → loose.encodeUnchecked a = loose.encodeUnchecked b →
        (a.value.toNat / 8 = b.value.toNat / 8 ∨
          0x800000000 ≤ a.value.toNat ∨ 0x800000000 ≤ b.value.toNat) ∧
        (¬ a.Representable ∨ ¬ b.Representable)) := by
  constructor
  · intro a
    refine ⟨a.truncate, a.folded, encodeUnchecked_of_not_validate hloose a,
      a.toNat_word_truncate, roundTrip_of_not_validate hloose a, a.foldsTo_folded, ?_,
      encodeUnchecked_of_validate hstrict a⟩
    rw [roundTrip_of_not_validate hloose, Address.folded_folded]
  · intro a b
    have hsame : loose.encodeUnchecked a = loose.encodeUnchecked b ↔ a.truncate = b.truncate := by
      rw [encodeUnchecked_of_not_validate hloose, encodeUnchecked_of_not_validate hloose,
        Except.ok.injEq]
    rw [hsame]
    constructor
    · exact Address.truncate_eq_truncate_iff
    · intro hne htruncate
      exact ⟨Address.div_eq_or_le_of_truncate_eq htruncate,
        Address.not_representable_or_of_truncate_eq hne htruncate⟩

/-- An address in the second cell behind the window, which is no multiple of eight either, is
taken for that of the second cell of all. -/
theorem encodeUnchecked_folds_of_second_cell :
    let loose : Codec := ⟨false, .propagate⟩
    let strict : Codec := ⟨true, .abort⟩
    let a : Address := ⟨0x80000000D⟩
    loose.validateUnchecked = false ∧ strict.validateUnchecked = true ∧
      loose.encodeUnchecked a = .ok ⟨1⟩ ∧ loose.roundTrip a = .ok ⟨8⟩ ∧
      loose.encodeUnchecked a = loose.encodeUnchecked ⟨8⟩ ∧
      strict.encodeUnchecked a = .error (.unrepresentable ⟨a⟩) := by
  intro loose strict a
  have hloose : loose.validateUnchecked = false := rfl
  have hstrict : strict.validateUnchecked = true := rfl
  obtain ⟨hfold, hsame⟩ := encodeUnchecked_folds hloose hstrict
  obtain ⟨r, p, hr, hword, hback, hfolds, -, hfails⟩ := hfold a
  obtain rfl : r = ⟨1⟩ := Ref.ext (UInt32.toNat_inj.mp (hword.trans (by decide)))
  obtain rfl : p = ⟨8⟩ := Address.ext (UInt64.toNat_inj.mp (hfolds.value.trans (by decide)))
  exact ⟨hloose, hstrict, hr, hback, (hsame a ⟨8⟩).1.mpr (by decide),
    hfails.trans (if_neg (by decide))⟩

end Codec

end CompressedRefs
