import CompressedRefs.Codec
import CompressedRefs.Session

/-!
# Sessions with a codec

A codec that is reconfigured and used in any order.  Setting a choice answers
with the codec after it; using the codec leaves it as it is, also when the use
ended in a failed assertion or would have ended the process.  A session looks
behind that end too; in one process there is nothing behind it.

On the standard error output stand the diagnostics, which the codec writes, and
what the process tells of failed assertions.  The wording of the latter is not the
codec's: it may name the thread and the place, and differ from one time to the
next.  So whoever reads the output says what is told.

## Main definitions

* `Codec.Step`, `Codec.Answer`, `Codec.step` — what can be asked, answered, and how.
* `Codec.run` — a whole session, which starts from any codec.
* `Codec.runInProcess` — a session in one process, which ends at the first abort.
* `Codec.written` — everything on the standard error output after a session.
-/

namespace CompressedRefs.Codec

/-- A request to a codec. -/
inductive Step
  /-- Go back to the default choices. -/
  | reset
  /-- Choose whether the unchecked encoding asserts. -/
  | setValidateUnchecked (on : Bool)
  /-- Choose the failure policy. -/
  | setFailurePolicy (policy : FailurePolicy)
  /-- Show the choices, and whether they are the default ones. -/
  | inspect
  /-- Encode an address. -/
  | encode (a : Address)
  /-- Encode an address without a refusal. -/
  | encodeUnchecked (a : Address)
  /-- Decode a reference. -/
  | decode (r : Ref)

/-- The answer of a codec. -/
inductive Answer
  /-- The codec after a choice. -/
  | configured (c : Codec)
  /-- The codec, and whether its choices are the default ones. -/
  | inspected (c : Codec) (isStandard : Bool)
  /-- What became of an encoding. -/
  | encoded (outcome : Outcome (Except RangeError Ref))
  /-- What became of an encoding without a refusal. -/
  | encodedUnchecked (result : Except AssertionFailure Ref)
  /-- The address of a reference. -/
  | decoded (a : Address)

/-- What stands on the standard error output after an answer, when `told` is what the process
tells of a failed assertion. -/
def Answer.stderr (told : AssertionFailure → String) : Answer → String
  | .encoded outcome => outcome.stderr
  | .encodedUnchecked (.error e) => told e
  | _ => ""

/-- Whether an answer is the last that a process gives. -/
def Answer.endsProcess : Answer → Bool
  | .encoded (.aborted _) => true
  | _ => false

/-- Answer one request, and give the codec for the next. -/
def step (c : Codec) : Step → Answer × Codec
  | .reset => (.configured standard, standard)
  | .setValidateUnchecked on => (.configured (c.withValidateUnchecked on), c.withValidateUnchecked on)
  | .setFailurePolicy policy => (.configured (c.withFailurePolicy policy), c.withFailurePolicy policy)
  | .inspect => (.inspected c c.isStandard, c)
  | .encode a => (.encoded (c.encode a), c)
  | .encodeUnchecked a => (.encodedUnchecked (c.encodeUnchecked a), c)
  | .decode r => (.decoded (c.decode r), c)

/-- Answer requests in turn. -/
def run (c : Codec) (steps : List Step) : List Answer × Codec := Session.run step c steps

/-- Answer requests in turn in one process, which ends at the first abort. -/
def runInProcess (c : Codec) (steps : List Step) : List Answer :=
  Session.runUntil Answer.endsProcess step c steps

/-- Everything on the standard error output after some answers, in order, when `told n` is what
the process tells of an assertion that failed at place `n`. -/
def written (told : Nat → AssertionFailure → String) (answers : List Answer) : String :=
  String.join (answers.mapIdx fun n answer => answer.stderr (told n))

end CompressedRefs.Codec
