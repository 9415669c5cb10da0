import CompressedRefs.Window
import Mathlib.Data.List.Forall2

/-!
# Order and distance in the window

References are numbers of half the width of addresses, and their order and distances are those
of the addresses that they stand for, at an eighth of the scale.  A reference can be compared,
sorted and searched for without being decoded.

Only decoding can be said to keep the order: encoding refuses most addresses, and truncation,
which refuses none, keeps no order at all.  But an accepted address is the decoding of its
reference, so whatever holds of decoding holds of encoding where it succeeds, and a list of
accepted addresses is the decoding of a list of references.

## Main statements

* `Ref.compare_decode`, `Ref.sub_decode` — decoding keeps the order, and distances up to scale.
* `Address.encode_eq_ok_iff` — accepted addresses are decoded references.
* `Address.encode_preserves_order` — encoding, of single addresses and of lists.
-/

namespace CompressedRefs

namespace Ref

variable {r s : Ref}

/-! ## Decoding -/

theorem decode_lt_decode_iff : r.decode < s.decode ↔ r < s := by
  rw [Address.lt_def, lt_def, UInt64.lt_iff_toNat_lt, UInt32.lt_iff_toNat_lt]
  simp only [toNat_value_decode]
  omega

theorem decode_le_decode_iff : r.decode ≤ s.decode ↔ r ≤ s := by
  rw [Address.le_def, le_def, UInt64.le_iff_toNat_le, UInt32.le_iff_toNat_le]
  simp only [toNat_value_decode]
  omega

theorem decode_inj : r.decode = s.decode ↔ r = s := by
  constructor
  · intro h
    rw [← truncate_decode r, h, truncate_decode]
  · exact congrArg decode

theorem compare_decode (r s : Ref) : compare r.decode s.decode = compare r s := by
  rw [Address.compare_eq, compare_eq, UInt64.compare_eq_toNat_compare_toNat,
    UInt32.compare_eq_toNat_compare_toNat]
  simp [Nat.compare_eq_ite_lt]

/-- Addresses are eight times as far apart as their references. -/
theorem sub_decode (r s : Ref) :
    (s.decode.value.toNat : Int) - r.decode.value.toNat =
      8 * ((s.word.toNat : Int) - r.word.toNat) := by
  simp only [toNat_value_decode]
  omega

end Ref

namespace Address

/-! ## Encoding -/

/-- An address has a reference if and only if it is what that reference decodes to. -/
theorem encode_eq_ok_iff {a : Address} {r : Ref} : a.encode = .ok r ↔ a = r.decode := by
  constructor
  · intro h
    by_cases ha : a.Representable
    · rw [encode_of_representable ha] at h
      cases h
      exact (decode_truncate ha).symm
    · rw [encode_of_not_representable ha] at h
      cases h
  · rintro rfl
    exact r.encode_decode

/-- A list of addresses that are all accepted is the decoding of a list of references. -/
theorem exists_eq_map_decode {as : List Address} (has : ∀ a ∈ as, ∃ r, a.encode = .ok r) :
    ∃ refs : List Ref, as = refs.map Ref.decode := by
  have hrepresentable : ∀ a ∈ as, a.Representable := by
    intro a ha
    obtain ⟨r, hr⟩ := has a ha
    rw [encode_eq_ok_iff.mp hr]
    exact r.representable_decode
  exact ⟨as.map truncate, (map_decode_map_truncate hrepresentable).symm⟩

theorem forall₂_encode_map_decode (refs : List Ref) :
    List.Forall₂ (fun a r => a.encode = .ok r) (refs.map Ref.decode) refs := by
  rw [List.forall₂_map_left_iff, List.forall₂_same]
  exact fun r _ => r.encode_decode

/-- **Compression preserves order and distance.**  References compare as the addresses that
they decode to, and these are eight times as far apart.  Accepted addresses compare as their
references.  So a list of accepted addresses is sorted, strictly or not, if and only if the
list of their references is, and an address is found where its reference is. -/
theorem encode_preserves_order :
    (∀ r s : Ref, compare r s = compare r.decode s.decode ∧
      (s.decode.value.toNat : Int) - r.decode.value.toNat =
        8 * ((s.word.toNat : Int) - r.word.toNat)) ∧
    (∀ (a b : Address) (r s : Ref), a.encode = .ok r → b.encode = .ok s →
      compare a b = compare r s) ∧
    ∀ as : List Address, (∀ a ∈ as, ∃ r, a.encode = .ok r) →
      ∃ refs : List Ref, List.Forall₂ (fun a r => a.encode = .ok r) as refs ∧
        (refs.Pairwise (· < ·) ↔ as.Pairwise (· < ·)) ∧
        (refs.Pairwise (· ≤ ·) ↔ as.Pairwise (· ≤ ·)) ∧
        ∀ (a : Address) (r : Ref), a.encode = .ok r →
          ∀ i : Nat, refs[i]? = some r ↔ as[i]? = some a := by
  refine ⟨fun r s => ⟨(r.compare_decode s).symm, r.sub_decode s⟩, ?_, ?_⟩
  · intro a b r s ha hb
    obtain rfl := encode_eq_ok_iff.mp ha
    obtain rfl := encode_eq_ok_iff.mp hb
    exact r.compare_decode s
  · intro as has
    obtain ⟨refs, rfl⟩ := exists_eq_map_decode has
    refine ⟨refs, forall₂_encode_map_decode refs, ?_, ?_, ?_⟩
    · simp only [List.pairwise_map, Ref.decode_lt_decode_iff]
    · simp only [List.pairwise_map, Ref.decode_le_decode_iff]
    · intro a r ha i
      obtain rfl := encode_eq_ok_iff.mp ha
      simp [List.getElem?_map, Ref.decode_inj]

/-- The last address of the window twice, behind a smaller one: sorted, but not strictly. -/
theorem encode_preserves_order_of_repeated :
    let as : List Address := [⟨16⟩, ⟨0x7FFFFFFF8⟩, ⟨0x7FFFFFFF8⟩]
    (∀ a ∈ as, ∃ r, a.encode = .ok r) ∧
      ∃ refs : List Ref, List.Forall₂ (fun a r => a.encode = .ok r) as refs ∧
        refs.Pairwise (· ≤ ·) ∧ ¬ refs.Pairwise (· < ·) ∧
        refs[0]? = some ⟨2⟩ ∧ refs[2]? = some ⟨0xFFFFFFFF⟩ := by
  intro as
  have hrepresentable : ∀ a ∈ as, a.Representable := by decide
  have has : ∀ a ∈ as, ∃ r, a.encode = .ok r := fun a ha =>
    ⟨a.truncate, encode_of_representable (hrepresentable a ha)⟩
  have hsorted : as.Pairwise (· ≤ ·) := by simp [as, le_def]
  have hrepeated : ¬ as.Pairwise (· < ·) := by simp [as, lt_def]
  obtain ⟨-, -, hlists⟩ := encode_preserves_order
  obtain ⟨refs, hrefs, hlt, hle, hplace⟩ := hlists as has
  exact ⟨has, refs, hrefs, hle.mpr hsorted, mt hlt.mp hrepeated,
    (hplace _ _ (Ref.encode_decode ⟨2⟩) 0).mpr rfl,
    (hplace _ _ (Ref.encode_decode ⟨0xFFFFFFFF⟩) 2).mpr rfl⟩

end Address

end CompressedRefs
