import CompressedRefs.Session
import CompressedRefs.Wire.Table

/-!
# Sessions over one buffer

A channel that is written at the end and read from a position, which starts at
the front.  The bytes in front of the position and behind it are kept apart, so
the position is never outside the buffer.  Writing and reading calls have a
script each, which lasts for the whole session.

## Main definitions

* `Buffer` — the bytes that were read, those that were not, and the two scripts.
* `Buffer.Step`, `Buffer.Answer`, `Buffer.step` — what can be asked, answered, and how.
* `Buffer.run` — a whole session.
-/

namespace CompressedRefs.Wire

/-- A buffer with a reading position, and what its calls will do. -/
@[ext] structure Buffer where
  /-- The bytes in front of the position. -/
  consumed : List UInt8
  /-- The bytes behind the position. -/
  unread : List UInt8
  /-- What the writing calls will do. -/
  writeScript : Script
  /-- What the reading calls will do. -/
  readScript : Script

namespace Buffer

/-- A buffer that holds some input, none of it read. -/
def ofInput (input : List UInt8) (writeScript readScript : Script) : Buffer :=
  ⟨[], input, writeScript, readScript⟩

/-- Everything in the buffer. -/
def contents (b : Buffer) : List UInt8 := b.consumed ++ b.unread

/-- The reading position. -/
def position (b : Buffer) : Nat := b.consumed.length

/-- The buffer after a transfer that wrote to it. -/
def written {ε α : Type} (b : Buffer) (t : Transfer ε α) : Buffer :=
  { b with unread := b.unread ++ t.moved, writeScript := t.script }

/-- The buffer after a transfer that read from it. -/
def read {ε α : Type} (b : Buffer) (t : Transfer ε α) : Buffer :=
  { b with
    consumed := b.consumed ++ t.moved
    unread := b.unread.drop t.moved.length
    readScript := t.script }

@[simp] theorem contents_written {ε α : Type} (b : Buffer) (t : Transfer ε α) :
    (b.written t).contents = b.contents ++ t.moved := by
  simp [written, contents]

@[simp] theorem position_written {ε α : Type} (b : Buffer) (t : Transfer ε α) :
    (b.written t).position = b.position := rfl

@[simp] theorem position_read {ε α : Type} (b : Buffer) (t : Transfer ε α) :
    (b.read t).position = b.position + t.moved.length := by
  simp [read, position]

theorem written_andThen_of_ok {ε α β : Type} (b : Buffer) {t : Transfer ε α} {a : α}
    (h : t.result = .ok a) (next : α → Script → Transfer ε β) :
    b.written (t.andThen next) = (b.written t).written (next a t.script) := by
  rw [Transfer.andThen_of_ok h, written, written, written, List.append_assoc]

theorem read_andThen_of_ok {ε α β : Type} (b : Buffer) {t : Transfer ε α} {a : α}
    (h : t.result = .ok a) (next : α → Script → Transfer ε β) :
    b.read (t.andThen next) = (b.read t).read (next a t.script) := by
  rw [Transfer.andThen_of_ok h, read, read, read, List.append_assoc, List.length_append,
    List.drop_drop]

/-- A request to a session. -/
inductive Step
  /-- Write one reference. -/
  | writeRef (order : ByteOrder) (r : Ref)
  /-- Encode and write addresses. -/
  | writeAddresses (order : ByteOrder) (as : List Address)
  /-- Read one reference. -/
  | readRef (order : ByteOrder)
  /-- Read and decode so many references. -/
  | readAddresses (order : ByteOrder) (count : Nat)

/-- What a request gives when it succeeds. -/
inductive Value
  /-- Everything was written. -/
  | written
  /-- The reference that was read. -/
  | ref (r : Ref)
  /-- The addresses that were read. -/
  | addresses (as : List Address)
  deriving DecidableEq

/-- The answer to a request. -/
structure Answer where
  /-- What the request gave, or why it failed. -/
  result : Except WireError Value
  /-- The bytes that it added to the buffer. -/
  wrote : List UInt8
  /-- The length of the buffer after it. -/
  length : Nat
  /-- The reading position after it. -/
  position : Nat

/-- The answer after a transfer that wrote. -/
def answerWritten {α : Type} (b : Buffer) (t : Transfer WireError α) : Answer × Buffer :=
  let b' := b.written t
  (⟨t.result.map fun _ => .written, t.moved, b'.contents.length, b'.position⟩, b')

/-- The answer after a transfer that read. -/
def answerRead {α : Type} (b : Buffer) (value : α → Value) (t : Transfer WireError α) :
    Answer × Buffer :=
  let b' := b.read t
  (⟨t.result.map value, [], b'.contents.length, b'.position⟩, b')

/-- Answer one request, and give the buffer for the next. -/
def step (b : Buffer) : Step → Answer × Buffer
  | .writeRef order r => b.answerWritten (Wire.writeRef order r b.writeScript)
  | .writeAddresses order as => b.answerWritten (Wire.writeAddresses order as b.writeScript)
  | .readRef order => b.answerRead .ref (Wire.readRef order b.unread b.readScript)
  | .readAddresses order count =>
    b.answerRead .addresses (Wire.readAddresses order count b.unread b.readScript)

/-- Answer requests in turn. -/
def run (b : Buffer) (steps : List Step) : List Answer × Buffer := Session.run step b steps

end Buffer

end CompressedRefs.Wire
