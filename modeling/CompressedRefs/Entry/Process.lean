import CompressedRefs.Entry.Calls
import CompressedRefs.Session

/-!
# Calls of one process

The entry points share one switch, which says whether encoding without a status
validates its address.  It is on at the start, any call may turn it, and it lasts
for the process.

## Main definitions

* `Entry.Call`, `Entry.Reply`, `Entry.step` — what can be called, answered, and how.
* `Entry.switchAtStart`, `Entry.run` — where the switch begins, and calls in turn.
-/

namespace CompressedRefs.Entry

/-- A call of an entry point. -/
inductive Call
  /-- Turn the switch: on for any number but zero. -/
  | setValidate (value : UInt8)
  /-- Read the switch. -/
  | getValidate
  /-- Decode a reference. -/
  | decode (r : Ref)
  /-- Encode an address, with zero or a loss of bits for one that is not representable. -/
  | encode (a : Address)
  /-- Encode an address into a slot. -/
  | encodeChecked (a : Address) (slot : Option Ref)
  /-- Encode an address, or end the process. -/
  | encodeOrAbort (a : Address)
  /-- End the process. -/
  | abort (a : Address)
  /-- Encode several addresses into slots. -/
  | encodeArray (addresses : Option (List Address)) (len : Nat) (slots : Option (List Ref))
      (failedIndex : Option Nat)

/-- What an entry point gives back. -/
inductive Reply
  /-- Where the switch is. -/
  | validate (on : Bool)
  /-- The address of a reference. -/
  | address (a : Address)
  /-- The reference of an address, or what stands in for it. -/
  | encoded (r : Guarded Ref)
  /-- A status, and the slot after the call. -/
  | checked (status : Status) (slot : Option Ref)
  /-- A reference, or the end of the process. -/
  | outcome (o : Outcome Ref)
  /-- What a call on several addresses left behind. -/
  | array (result : ArrayResult)

/-- Answer one call, and give the switch after it. -/
def step (validate : Bool) : Call → Reply × Bool
  | .setValidate value => (.validate (value != 0), value != 0)
  | .getValidate => (.validate validate, validate)
  | .decode r => (.address (decode r), validate)
  | .encode a => (.encoded (encode validate a), validate)
  | .encodeChecked a slot =>
    let (status, slot') := encodeChecked a slot
    (.checked status slot', validate)
  | .encodeOrAbort a => (.outcome (encodeOrAbort a), validate)
  | .abort a => (.outcome (Diagnostic.abort a), validate)
  | .encodeArray addresses len slots failedIndex =>
    (.array (encodeArray addresses len slots failedIndex), validate)

/-- A process begins with the switch where the default codec has it: on. -/
def switchAtStart : Bool := Codec.standard.validateUnchecked

/-- Answer calls in turn. -/
def run (validate : Bool) (calls : List Call) : List Reply × Bool :=
  Session.run step validate calls

end CompressedRefs.Entry
