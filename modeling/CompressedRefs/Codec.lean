import CompressedRefs.Assertion
import CompressedRefs.Diagnostic

/-!
# Codecs

A codec is the pair of choices under which addresses are encoded: what to do
with an address that is refused, and whether the encoding that has no answer for
such an address asserts that it never sees one.  Each choice acts on one of the
two encodings and on nothing else; decoding needs neither.

## Main definitions

* `FailurePolicy`, `Codec`, `Codec.standard` — the choices, and those made by default.
* `Codec.encode` — the encoding that refuses, under the failure policy.
* `Codec.encodeUnchecked` — the encoding that asserts, or loses bits.
-/

namespace CompressedRefs

/-- What an encoding does with an address that it refuses. -/
inductive FailurePolicy
  /-- Return the refusal, and write nothing. -/
  | propagate
  /-- Write the diagnostic, and return the refusal. -/
  | report
  /-- Write the diagnostic, and end the process. -/
  | abort
  deriving DecidableEq

/-- The choices under which addresses are encoded. -/
@[ext] structure Codec where
  /-- Whether the unchecked encoding asserts that its address is representable. -/
  validateUnchecked : Bool
  /-- What the checked encoding does with an address that it refuses. -/
  onFailure : FailurePolicy
  deriving DecidableEq

namespace Codec

/-- By default the unchecked encoding asserts, and refusals are returned.  The first is the
default of debug builds and of strict ones, which are what is described here; other builds
do not assert unless they are told to. -/
def standard : Codec := ⟨true, .propagate⟩

instance : Inhabited Codec := ⟨standard⟩

/-- Whether both choices are the default ones. -/
def isStandard (c : Codec) : Bool := c == standard

/-- The same codec with another choice of whether to assert. -/
def withValidateUnchecked (c : Codec) (on : Bool) : Codec := { c with validateUnchecked := on }

/-- The same codec with another failure policy. -/
def withFailurePolicy (c : Codec) (policy : FailurePolicy) : Codec := { c with onFailure := policy }

/-- Encode an address, and treat a refusal as the failure policy says. -/
def encode (c : Codec) (a : Address) : Outcome (Except RangeError Ref) :=
  match a.encode with
  | .ok r => .returned (.ok r) ""
  | .error e =>
    match c.onFailure with
    | .propagate => .returned (.error e) ""
    | .report => .returned (.error e) (Diagnostic.report e.address).stderr
    | .abort => Diagnostic.abort e.address

/-- Encode an address without a refusal: an unrepresentable one fails the
assertion, or loses the bits that do not fit when there is none. -/
def encodeUnchecked (c : Codec) (a : Address) : Except AssertionFailure Ref :=
  if c.validateUnchecked then a.encodeAsserted else .ok a.truncate

/-- The address of a reference. -/
def decode (_c : Codec) (r : Ref) : Address := r.decode

theorem encode_of_representable (c : Codec) {a : Address} (h : a.Representable) :
    c.encode a = .returned (.ok a.truncate) "" := by
  simp [encode, Address.encode_of_representable h]

theorem encode_of_not_representable (c : Codec) {a : Address} (h : ¬ a.Representable) :
    c.encode a =
      match c.onFailure with
      | .propagate => .returned (.error ⟨a⟩) ""
      | .report => .returned (.error ⟨a⟩) (Diagnostic.text a)
      | .abort => .aborted (Diagnostic.text a) := by
  rw [encode, Address.encode_of_not_representable h]
  cases c.onFailure <;> rfl

theorem encodeUnchecked_of_representable (c : Codec) {a : Address} (h : a.Representable) :
    c.encodeUnchecked a = .ok a.truncate := by
  unfold encodeUnchecked
  split
  · exact Address.encodeAsserted_of_representable h
  · rfl

theorem encodeUnchecked_of_not_representable {c : Codec} (hc : c.validateUnchecked = true)
    {a : Address} (h : ¬ a.Representable) :
    c.encodeUnchecked a = .error (.unrepresentable ⟨a⟩) := by
  rw [encodeUnchecked, if_pos hc, Address.encodeAsserted_of_not_representable h]

end Codec

end CompressedRefs
