/-!
# Errors of channels

The errors that a reading or a writing call can fail with: a kind, which decides
whether a call is worth repeating, and a text for people.  The two errors that
no call reports itself, because they are about a whole transfer that stopped
short, are named here too.

## Main definitions

* `IoError.Kind`, `IoError` — the kinds, and an error with its text.
* `IoError.ofKind` — the error with the usual text of its kind.
* `IoError.writeZero`, `IoError.unexpectedEnd` — a transfer that stopped short.
-/

namespace CompressedRefs

/-- The kinds of error. -/
inductive IoError.Kind
  | notFound
  | permissionDenied
  | connectionReset
  | brokenPipe
  | wouldBlock
  | invalidInput
  | invalidData
  | timedOut
  | writeZero
  | interrupted
  | unsupported
  | unexpectedEnd
  | outOfMemory
  | other
  deriving DecidableEq

/-- The usual text of a kind. -/
def IoError.Kind.text : IoError.Kind → String
  | notFound => "entity not found"
  | permissionDenied => "permission denied"
  | connectionReset => "connection reset"
  | brokenPipe => "broken pipe"
  | wouldBlock => "operation would block"
  | invalidInput => "invalid input parameter"
  | invalidData => "invalid data"
  | timedOut => "timed out"
  | writeZero => "write zero"
  | interrupted => "operation interrupted"
  | unsupported => "unsupported"
  | unexpectedEnd => "unexpected end of file"
  | outOfMemory => "out of memory"
  | other => "other error"

/-- An error of a channel. -/
structure IoError where
  /-- What sort of error it is. -/
  kind : IoError.Kind
  /-- What it says. -/
  text : String
  deriving DecidableEq

namespace IoError

/-- The error that says what its kind usually says. -/
def ofKind (k : Kind) : IoError := ⟨k, k.text⟩

/-- An interrupted call did nothing and is worth repeating; no other error is. -/
def isInterrupted (e : IoError) : Bool := e.kind == .interrupted

/-- A call took nothing of what had to be written. -/
def writeZero : IoError := ⟨.writeZero, "failed to write whole buffer"⟩

/-- A call gave nothing of what had to be read. -/
def unexpectedEnd : IoError := ⟨.unexpectedEnd, "failed to fill whole buffer"⟩

end IoError

end CompressedRefs
