import CompressedRefs.Assertion

/-!
# Status codes

What an entry point tells a caller that understands numbers only, and how an
assertion that fails inside one is kept from its caller: a fallback stands in for
the answer.

## Main definitions

* `Status`, `Status.code`, `Status.ofRangeError` — the statuses and their numbers.
* `Guarded`, `Guarded.of`, `Guarded.value` — an answer or its fallback.
-/

namespace CompressedRefs.Entry

/-- How a call ended. -/
inductive Status
  /-- It succeeded. -/
  | ok
  /-- An address is not representable. -/
  | pointerOutOfRange
  /-- A place that the call needs was missing. -/
  | invalidArgument
  /-- An assertion failed inside the call. -/
  | assertionFailed
  deriving DecidableEq

namespace Status

/-- The number of a status: success is zero and failures are negative. -/
def code : Status → Int
  | ok => 0
  | pointerOutOfRange => -1
  | invalidArgument => -2
  | assertionFailed => -128

/-- The status of a refused address. -/
def ofRangeError (_ : RangeError) : Status := pointerOutOfRange

end Status

/-- What an entry point gives, with a note of where it came from. -/
inductive Guarded (α : Type) where
  /-- The entry point's own answer. -/
  | answer (value : α)
  /-- What stands in for the answer after an assertion failed. -/
  | fallback (value : α) (failure : AssertionFailure)

namespace Guarded

variable {α : Type}

/-- An answer that may have failed, with what stands in for it then. -/
def of (standIn : α) : Except AssertionFailure α → Guarded α
  | .ok a => answer a
  | .error e => fallback standIn e

/-- What the caller sees. -/
def value : Guarded α → α
  | answer a => a
  | fallback a _ => a

@[simp] theorem of_ok (standIn a : α) : of standIn (.ok a) = answer a := rfl
@[simp] theorem of_error (standIn : α) (e : AssertionFailure) :
    of standIn (.error e) = fallback standIn e := rfl
@[simp] theorem value_answer (a : α) : (answer a).value = a := rfl
@[simp] theorem value_fallback (a : α) (e : AssertionFailure) : (fallback a e).value = a := rfl

end Guarded

end CompressedRefs.Entry
