import CompressedRefs.Entry.Calls

/-!
# All encoders draw the same line

An address can be encoded in several ways: plainly, under an assertion, through a codec,
and through the entry points.  They differ in what they do with an address that has no
reference and in nothing else.  Which addresses these are is said in arithmetic: some of
the encoders decode what they made and compare, others look at the bits, and none of them
divides.

## Main definitions

* `Accepted`, `Refused` — what every encoder does with an address on either side of the line.

## Main statements

* `accepted_truncate`, `refused_of_not_representable` — the two sides.
* `encoders_agree` — every address lies on one of them, and every reference comes from one.
-/

namespace CompressedRefs

/-- Every encoder gives the reference `r` for the address `a`, and says nothing else; every
decoder gives `a` back. -/
structure Accepted (a : Address) (r : Ref) : Prop where
  isRepresentable : a.isRepresentable = true
  encode : a.encode = .ok r
  encodeAsserted : a.encodeAsserted = .ok r
  codecEncode : ∀ c : Codec, c.encode a = .returned (.ok r) ""
  codecEncodeUnchecked : ∀ c : Codec, c.encodeUnchecked a = .ok r
  entryEncode : ∀ validate, Entry.encode validate a = .answer r
  entryEncodeChecked : ∀ slot, (Entry.encodeChecked a (some slot)).1.code = 0 ∧
    (Entry.encodeChecked a (some slot)).2 = some r
  entryEncodeOrAbort : Entry.encodeOrAbort a = .returned r ""
  decode : r.decode = a
  codecDecode : ∀ c : Codec, c.decode r = a
  entryDecode : Entry.decode r = a

/-- Every encoder that validates refuses the address `a`, each in its own way: with an error
that tells the cause, by failing an assertion, by ending the process, with a status that
leaves the slot alone, or with zero. -/
structure Refused (a : Address) : Prop where
  isRepresentable : a.isRepresentable = false
  encode : a.encode = .error ⟨a⟩
  misaligned : (RangeError.mk a).isMisaligned = decide (a.value.toNat % 8 ≠ 0)
  exceeds : (RangeError.mk a).exceedsWindow = decide (0x800000000 ≤ a.value.toNat)
  cause : (RangeError.mk a).isMisaligned = true ∨ (RangeError.mk a).exceedsWindow = true
  encodeAsserted : a.encodeAsserted = .error (.unrepresentable ⟨a⟩)
  codecEncode : ∀ c : Codec, c.encode a =
    match c.onFailure with
    | .propagate => .returned (.error ⟨a⟩) ""
    | .report => .returned (.error ⟨a⟩) (Diagnostic.text a)
    | .abort => .aborted (Diagnostic.text a)
  codecEncodeUnchecked : ∀ c : Codec, c.validateUnchecked = true →
    c.encodeUnchecked a = .error (.unrepresentable ⟨a⟩)
  entryEncode : Entry.encode true a = .answer .null
  entryEncodeChecked : ∀ slot, (Entry.encodeChecked a (some slot)).1.code = -1 ∧
    (Entry.encodeChecked a (some slot)).2 = some slot
  entryEncodeOrAbort : Entry.encodeOrAbort a = .aborted (Diagnostic.text a)

/-- Every encoding of a representable address ends in the same reference. -/
theorem accepted_truncate {a : Address} (h : a.Representable) : Accepted a a.truncate where
  isRepresentable := a.isRepresentable_iff.mpr h
  encode := Address.encode_of_representable h
  encodeAsserted := Address.encodeAsserted_of_representable h
  codecEncode c := c.encode_of_representable h
  codecEncodeUnchecked c := c.encodeUnchecked_of_representable h
  entryEncode validate := Entry.encode_of_representable validate h
  entryEncodeChecked slot := by
    rw [Entry.encodeChecked_of_representable h]
    exact ⟨rfl, rfl⟩
  entryEncodeOrAbort := Entry.encodeOrAbort_of_representable h
  decode := Address.decode_truncate h
  codecDecode _ := Address.decode_truncate h
  entryDecode := Address.decode_truncate h

theorem refused_of_not_representable {a : Address} (h : ¬ a.Representable) : Refused a where
  isRepresentable := a.isRepresentable_eq_false_iff.mpr h
  encode := Address.encode_of_not_representable h
  misaligned := by
    rw [Bool.eq_iff_iff, decide_eq_true_iff]
    exact RangeError.isMisaligned_iff ⟨a⟩
  exceeds := by
    rw [Bool.eq_iff_iff, decide_eq_true_iff]
    exact RangeError.exceedsWindow_iff ⟨a⟩
  cause := by
    rw [RangeError.isMisaligned_iff, RangeError.exceedsWindow_iff]
    unfold Address.Representable at h
    dsimp only
    omega
  encodeAsserted := Address.encodeAsserted_of_not_representable h
  codecEncode c := c.encode_of_not_representable h
  codecEncodeUnchecked _ hc := Codec.encodeUnchecked_of_not_representable hc h
  entryEncode := Entry.encode_true_of_not_representable h
  entryEncodeChecked slot := by
    rw [Entry.encodeChecked_of_not_representable h]
    exact ⟨rfl, rfl⟩
  entryEncodeOrAbort := Entry.encodeOrAbort_of_not_representable h

/-- **All encoders draw the same line and give the same value.**  A multiple of eight below
`2 ^ 35` is encoded by all of them as its eighth, and any other address is refused by all
that validate; a missing slot is told before the address is looked at.  Every reference
decodes to an address that they all encode as that reference. -/
theorem encoders_agree :
    (∀ a : Address,
      ((Entry.encodeChecked a none).1.code = -2 ∧ (Entry.encodeChecked a none).2 = none) ∧
      if a.value.toNat % 8 = 0 ∧ a.value.toNat < 0x800000000 then
        ∃ r : Ref, r.word.toNat = a.value.toNat / 8 ∧ Accepted a r
      else Refused a) ∧
    ∀ r : Ref, r.decode.value.toNat = 8 * r.word.toNat ∧ r.decode.Representable ∧
      Accepted r.decode r := by
  constructor
  · intro a
    refine ⟨⟨rfl, rfl⟩, ?_⟩
    split
    · rename_i h
      have heighth := Address.eight_mul_toNat_word_truncate h
      exact ⟨a.truncate, by omega, accepted_truncate h⟩
    · rename_i h
      exact refused_of_not_representable h
  · intro r
    have haccepted := accepted_truncate r.representable_decode
    rw [r.truncate_decode] at haccepted
    exact ⟨r.toNat_value_decode, r.representable_decode, haccepted⟩

end CompressedRefs
