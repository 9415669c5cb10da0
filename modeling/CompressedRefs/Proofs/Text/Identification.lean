import CompressedRefs.Diagnostic
import CompressedRefs.Proofs.Text.Hexadecimal
import CompressedRefs.Wire.Error
import Mathlib.Data.List.Basic

/-!
# What a text tells

Addresses and references are printed in base sixteen, and messages are fixed words around
them.  So a message can be read back: the words in front and behind are taken off, and what is
left is a number.  Only the message about a place in a table has two numbers in it, both as
long as they need to be, and it can still be taken apart, since a colon follows the first one
and stands nowhere else.

The message about a failed channel ends in a text that may be anything.  It cannot pass for
one about an address, because the two begin with different letters.

## Main statements

* `Address.text_inj`, `Ref.text_inj`, `Ref.compare_text` — texts of addresses and references.
* `RangeError.message_inj`, `Diagnostic.text_inj` — texts about a refused address.
* `WireError.message_outOfRange_inj`, `WireError.message_io_ne_message_outOfRange` — messages
  about a table.
* `texts_identify` — all of them.
-/

namespace CompressedRefs

/-! ## Addresses and references -/

namespace Address

variable {a b : Address}

theorem text_inj : a.text = b.text ↔ a = b := by
  rw [text, text, String.append_right_inj, String.ofList_inj, Hex.digits_inj, UInt64.toNat_inj,
    ← Address.ext_iff]

/-- The text of an address has digits and an `x` in it, and nothing else. -/
theorem mem_of_mem_text {c : Char} (h : c ∈ a.text.toList) : c ∈ 'x' :: Hex.alphabet := by
  rw [toList_text, List.mem_cons, List.mem_cons] at h
  rcases h with rfl | rfl | h
  · decide
  · decide
  · exact List.mem_cons_of_mem _ ((Hex.spells_digits _).lowerCase c h)

/-- The text of an address spells it with as few digits as it takes. -/
theorem spells_text (a : Address) :
    ∃ digits, a.text = "0x" ++ String.ofList digits ∧ Hex.Spells digits a.value.toNat ∧
      if a = null then digits = ['0'] else digits.head? ≠ some '0' := by
  refine ⟨_, rfl, Hex.spells_digits _, ?_⟩
  split
  · rename_i h
    rw [h]
    rfl
  · rename_i h
    have hvalue : a.value.toNat ≠ 0 := fun h0 => h (Address.ext (UInt64.toNat_inj.mp h0))
    exact mt (Hex.head?_digits_eq_zero_iff _).mp hvalue

end Address

namespace Ref

variable {r s : Ref}

@[simp] theorem toList_text (r : Ref) :
    r.text.toList =
      'r' :: 'e' :: 'f' :: '3' :: '2' :: ':' :: '0' :: 'x' :: Hex.padded 8 r.word.toNat := by
  simp [text]

theorem length_digits_word_le (r : Ref) : (Hex.digits r.word.toNat).length ≤ 8 :=
  (Nat.length_toDigits_le_iff (by decide) (by decide)).mpr r.word.toNat_lt

theorem length_padded_word (r : Ref) : (Hex.padded 8 r.word.toNat).length = 8 :=
  Hex.length_padded r.length_digits_word_le

theorem length_text (r : Ref) : r.text.length = 16 := by
  simp [← String.length_toList, length_padded_word]

/-- References have one width, so their texts are in alphabetical order when they are in order. -/
theorem text_lt_text_iff : r.text < s.text ↔ r < s := by
  rw [lt_def, UInt32.lt_iff_toNat_lt, ← Hex.padded_lt_padded_iff r.length_digits_word_le
    s.length_digits_word_le, String.lt_iff]
  simp

theorem text_inj : r.text = s.text ↔ r = s := by
  rw [text, text, String.append_right_inj, String.ofList_inj, Hex.padded_inj, UInt32.toNat_inj,
    ← Ref.ext_iff]

theorem compare_text (r s : Ref) : compare r.text s.text = compare r s := by
  have htext : ∀ x y : String, compare x y = compareOfLessAndEq x y := fun _ _ => rfl
  have hword : ∀ x y : UInt32, compare x y = compareOfLessAndEq x y := fun _ _ => rfl
  rw [compare_eq, htext, hword]
  simp only [compareOfLessAndEq, text_lt_text_iff, lt_def, text_inj, Ref.ext_iff]

end Ref

/-! ## Messages about one address -/

namespace RangeError

variable {e f : RangeError}

theorem message_inj : e.message = f.message ↔ e.address = f.address := by
  rw [message, message, String.append_left_inj, String.append_right_inj, Address.text_inj]

/-- No colon stands in the message. -/
theorem colon_notMem_message (e : RangeError) : ':' ∉ e.message.toList := by
  rw [message, String.toList_append, String.toList_append, List.mem_append, List.mem_append]
  rintro ((h | h) | h)
  · exact absurd h (by decide)
  · exact absurd (Address.mem_of_mem_text h) (by decide)
  · exact absurd h (by decide)

end RangeError

namespace Diagnostic

variable {a b : Address}

theorem text_inj : text a = text b ↔ a = b := by
  rw [text_eq, text_eq, String.append_left_inj, String.append_left_inj, String.append_right_inj,
    Address.text_inj]

/-- The address has no line end in it, so the diagnostic has the two of its own words. -/
theorem count_newline_text (a : Address) : (text a).toList.count '\n' = 2 := by
  have haddress : a.text.toList.count '\n' = 0 :=
    List.count_eq_zero.mpr fun h => absurd (Address.mem_of_mem_text h) (by decide)
  have hwords : "fatal error: pointer ".toList.count '\n' = 0 := by decide
  have hend : " too big or misaligned.\n".toList.count '\n' = 1 := by decide
  have hhint : hint.toList.count '\n' = 1 := by decide +kernel
  simp only [text_eq, String.toList_append, List.count_append, haddress, hwords, hend, hhint]

end Diagnostic

/-! ## Messages about a table -/

namespace WireError

theorem message_io_inj {e f : IoError} : (io e).message = (io f).message ↔ e.text = f.text := by
  rw [message_io, message_io, String.append_right_inj]

/-- The two causes begin with different letters. -/
theorem message_io_ne_message_outOfRange (e : IoError) (i : Nat) (f : RangeError) :
    (io e).message ≠ (outOfRange i f).message := by
  intro h
  have hlist := congrArg String.toList h
  simp [message_io, message_outOfRange] at hlist

theorem colon_notMem_toDigits (i : Nat) : ':' ∉ Nat.toDigits 10 i := fun h =>
  absurd (Nat.isDigit_of_mem_toDigits (by decide) (by decide) h) (by decide)

/-- The only colon behind the fixed words in front is the one that ends the index. -/
theorem message_outOfRange_inj {i j : Nat} {e f : RangeError} :
    (outOfRange i e).message = (outOfRange j f).message ↔ i = j ∧ e.address = f.address := by
  constructor
  · intro h
    have hlist : Nat.toDigits 10 i ++ ':' :: ' ' :: e.message.toList =
        Nat.toDigits 10 j ++ ':' :: ' ' :: f.message.toList := by
      simpa [message_outOfRange, Nat.toString_eq_ofList_toDigits] using congrArg String.toList h
    have hrest : ':' ∉ ' ' :: e.message.toList := by
      simpa using e.colon_notMem_message
    obtain ⟨hindex, -, hsource⟩ :=
      (List.append_cons_inj_of_notMem (colon_notMem_toDigits i) hrest).mp hlist
    constructor
    · rw [← Nat.ofDigitChars_ten_toDigits (n := i), hindex, Nat.ofDigitChars_ten_toDigits]
    · exact RangeError.message_inj.mp (String.toList_inj.mp (List.cons.inj hsource).2)
  · rintro ⟨rfl, h⟩
    rw [message_outOfRange, message_outOfRange, RangeError.message_inj.mpr h]

end WireError

/-! ## Together -/

/-- **A text tells what it is about.**  The text of an address is `0x` and as few lower-case
digits as spell it in base sixteen; that of a reference is sixteen characters long and ends in
eight digits that spell it, so references sort as their texts do.  The message about a refused
address and the diagnostic of two lines tell the address.  The message about a table tells
whether the channel failed or an address was refused: in the one case it tells the text of the
failure, and in the other the index and the address. -/
theorem texts_identify :
    (∀ a : Address, ∃ digits, a.text = "0x" ++ String.ofList digits ∧
      Hex.Spells digits a.value.toNat ∧
      if a = .null then digits = ['0'] else digits.head? ≠ some '0') ∧
    (∀ r : Ref, r.text.length = 16 ∧ ∃ digits, r.text = "ref32:0x" ++ String.ofList digits ∧
      digits.length = 8 ∧ Hex.Spells digits r.word.toNat) ∧
    (∀ r s : Ref, compare r.text s.text = compare r s) ∧
    (∀ e f : RangeError, e.message = f.message ↔ e.address = f.address) ∧
    (∀ a b : Address, (Diagnostic.text a).toList.count '\n' = 2 ∧
      (Diagnostic.text a = Diagnostic.text b ↔ a = b)) ∧
    (∀ (i j : Nat) (e f : RangeError),
      (WireError.outOfRange i e).message = (WireError.outOfRange j f).message ↔
        i = j ∧ e.address = f.address) ∧
    (∀ (e : IoError) (i : Nat) (f : RangeError),
      (WireError.io e).message ≠ (WireError.outOfRange i f).message) ∧
    ∀ e f : IoError, (WireError.io e).message = (WireError.io f).message ↔ e.text = f.text := by
  refine ⟨Address.spells_text, ?_, Ref.compare_text, fun e f => RangeError.message_inj, ?_,
    fun i j e f => WireError.message_outOfRange_inj, WireError.message_io_ne_message_outOfRange,
    fun e f => WireError.message_io_inj⟩
  · intro r
    exact ⟨r.length_text, _, rfl, r.length_padded_word, Hex.spells_padded 8 _⟩
  · intro a b
    exact ⟨Diagnostic.count_newline_text a, Diagnostic.text_inj⟩

end CompressedRefs
