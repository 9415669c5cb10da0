import CompressedRefs.Codec
import CompressedRefs.Entry.Status

/-!
# Entry points

The codec for callers that pass addresses and places to put references in, and
get numbers back.  A place that is missing is `none`; a call that needs it says
so, and looks at no address before it has.  A call gives back the places it was
passed, so what it does not mention is what it leaves alone.

## Main definitions

* `Entry.decode`, `Entry.encode` — a reference's address, and an address's reference or zero.
* `Entry.encodeChecked`, `Entry.encodeOrAbort` — with a status, or with an end of the process.
* `Entry.encodeArray` — several addresses at once, up to the first that is refused.
-/

namespace CompressedRefs.Entry

/-- The address of a reference. -/
def decode (r : Ref) : Address := r.decode

/-- The codec behind the entry points: only whether it asserts can be chosen. -/
def codec (validate : Bool) : Codec := Codec.standard.withValidateUnchecked validate

/-- The reference of an address.  With validation an unrepresentable address
gives zero; without, it loses the bits that do not fit. -/
def encode (validate : Bool) (a : Address) : Guarded Ref :=
  .of .null <|
    if (codec validate).validateUnchecked && !a.isRepresentable then .ok .null
    else (codec validate).encodeUnchecked a

/-- Put the reference of an address into a slot. -/
def encodeChecked (a : Address) : Option Ref → Status × Option Ref
  | none => (.invalidArgument, none)
  | some slot =>
    match a.encode with
    | .ok r => (.ok, some r)
    | .error e => (.ofRangeError e, some slot)

/-- The reference of an address, or the diagnostic and the end of the process. -/
def encodeOrAbort (a : Address) : Outcome Ref :=
  match a.encode with
  | .ok r => .returned r ""
  | .error e => Diagnostic.abort e.address

theorem encode_of_representable (validate : Bool) {a : Address} (h : a.Representable) :
    encode validate a = .answer a.truncate := by
  have hrepresentable := a.isRepresentable_iff.mpr h
  have hunchecked := (codec validate).encodeUnchecked_of_representable h
  simp [encode, hrepresentable, hunchecked]

theorem encode_true_of_not_representable {a : Address} (h : ¬ a.Representable) :
    encode true a = .answer .null := by
  have hvalidate : (codec true).validateUnchecked = true := rfl
  have hrefused := a.isRepresentable_eq_false_iff.mpr h
  simp [encode, hvalidate, hrefused]

theorem encodeChecked_of_representable {a : Address} (h : a.Representable) (slot : Ref) :
    encodeChecked a (some slot) = (.ok, some a.truncate) := by
  rw [encodeChecked, Address.encode_of_representable h]

theorem encodeChecked_of_not_representable {a : Address} (h : ¬ a.Representable) (slot : Ref) :
    encodeChecked a (some slot) = (.pointerOutOfRange, some slot) := by
  rw [encodeChecked, Address.encode_of_not_representable h]
  rfl

theorem encodeOrAbort_of_representable {a : Address} (h : a.Representable) :
    encodeOrAbort a = .returned a.truncate "" := by
  rw [encodeOrAbort, Address.encode_of_representable h]

theorem encodeOrAbort_of_not_representable {a : Address} (h : ¬ a.Representable) :
    encodeOrAbort a = .aborted (Diagnostic.text a) := by
  rw [encodeOrAbort, Address.encode_of_not_representable h]
  rfl

/-- Put references into slots in order, up to the first address that is refused;
gives the slots, and where that address is and why. -/
def fillSlots : List Address → List Ref → List Ref × Option (Nat × RangeError)
  | [], slots => (slots, none)
  | _ :: _, [] => ([], none)
  | a :: as, slot :: slots =>
    match a.encode with
    | .ok r =>
      let rest := fillSlots as slots
      (r :: rest.1, rest.2.map fun refusal => (refusal.1 + 1, refusal.2))
    | .error e => (slot :: slots, some (0, e))

/-- What a call on several addresses leaves behind. -/
structure ArrayResult where
  /-- How it ended. -/
  status : Status
  /-- The slots for references. -/
  slots : Option (List Ref)
  /-- The slot for the index of a refused address. -/
  failedIndex : Option Nat
  deriving DecidableEq

/-- Put the references of the first `len` addresses into slots.  No address asks
for no place.  The index of the address that was refused is stored only if
there is a slot for it. -/
def encodeArray (addresses : Option (List Address)) (len : Nat) (slots : Option (List Ref))
    (failedIndex : Option Nat) : ArrayResult :=
  if len = 0 then ⟨.ok, slots, failedIndex⟩
  else
    match addresses, slots with
    | some as, some refs =>
      match fillSlots (as.take len) refs with
      | (refs', none) => ⟨.ok, some refs', failedIndex⟩
      | (refs', some (index, e)) =>
        ⟨.ofRangeError e, some refs', failedIndex.map fun _ => index⟩
    | _, _ => ⟨.invalidArgument, slots, failedIndex⟩

/-- A call on no address succeeds and touches nothing, whatever is missing. -/
@[simp] theorem encodeArray_zero (addresses : Option (List Address)) (slots : Option (List Ref))
    (failedIndex : Option Nat) :
    encodeArray addresses 0 slots failedIndex = ⟨.ok, slots, failedIndex⟩ := rfl

/-- A call that misses the addresses or the slots says so and touches nothing. -/
theorem encodeArray_of_missing {addresses : Option (List Address)} {len : Nat}
    {slots : Option (List Ref)} (hlen : len ≠ 0) (h : addresses = none ∨ slots = none)
    (failedIndex : Option Nat) :
    encodeArray addresses len slots failedIndex = ⟨.invalidArgument, slots, failedIndex⟩ := by
  rcases h with rfl | rfl
  · simp only [encodeArray, if_neg hlen]
  · cases addresses <;> simp only [encodeArray, if_neg hlen]

/-- The order of the checks: whether there is any address to encode, then whether a place is
missing, and only then the addresses. -/
theorem encodeArray_cases (addresses : Option (List Address)) (len : Nat)
    (slots : Option (List Ref)) (failedIndex : Option Nat) :
    let result := encodeArray addresses len slots failedIndex
    (len = 0 ∧ result = ⟨.ok, slots, failedIndex⟩) ∨
    (len ≠ 0 ∧ (addresses = none ∨ slots = none) ∧
      result = ⟨.invalidArgument, slots, failedIndex⟩) ∨
    (len ≠ 0 ∧ addresses ≠ none ∧ slots ≠ none ∧
      (result.status = .ok ∨ result.status = .pointerOutOfRange)) := by
  intro result
  by_cases hlen : len = 0
  · subst hlen
    exact .inl ⟨rfl, rfl⟩
  cases addresses with
  | none => exact .inr (.inl ⟨hlen, .inl rfl, encodeArray_of_missing hlen (.inl rfl) _⟩)
  | some as =>
    cases slots with
    | none => exact .inr (.inl ⟨hlen, .inr rfl, encodeArray_of_missing hlen (.inr rfl) _⟩)
    | some refs =>
      refine .inr (.inr ⟨hlen, Option.some_ne_none as, Option.some_ne_none refs, ?_⟩)
      simp only [result, encodeArray, if_neg hlen]
      split
      · exact .inl rfl
      · exact .inr rfl

theorem fillSlots_cons_of_representable {a : Address} (h : a.Representable) (as : List Address)
    (slot : Ref) (slots : List Ref) :
    fillSlots (a :: as) (slot :: slots) =
      (a.truncate :: (fillSlots as slots).1,
        (fillSlots as slots).2.map fun refusal => (refusal.1 + 1, refusal.2)) := by
  rw [fillSlots, Address.encode_of_representable h]

theorem fillSlots_cons_of_not_representable {a : Address} (h : ¬ a.Representable)
    (as : List Address) (slot : Ref) (slots : List Ref) :
    fillSlots (a :: as) (slot :: slots) = (slot :: slots, some (0, ⟨a⟩)) := by
  rw [fillSlots, Address.encode_of_not_representable h]

end CompressedRefs.Entry
