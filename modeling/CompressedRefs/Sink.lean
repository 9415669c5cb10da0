import CompressedRefs.Diagnostic
import CompressedRefs.IoError

/-!
# Sinks of limited size

A place to write to that takes only so many bytes in all, and only so many at a
call.  A full sink fails every call, or takes nothing.  A text is delivered in
pieces, each written by as many calls as it needs, and the sink is flushed once
when all of it has been taken; the first error ends the delivery.

The error of a full sink is meant not to be an interruption: a writer repeats an
interrupted call, and no repetition would empty the sink.  A flush is never
repeated.

## Main definitions

* `Text.bytes` — a text as the bytes that a sink takes.
* `Sink`, `Sink.accept` — a sink, and what one call does.
* `Sink.write`, `Sink.writePieces` — one piece, and several in turn.
* `Sink.Delivery`, `Sink.deliver`, `Sink.writeDiagnostic` — a whole text, and the diagnostic.
-/

namespace CompressedRefs

/-- The bytes of a text in UTF-8. -/
def Text.bytes (s : String) : List UInt8 := s.toUTF8.data.toList

@[simp] theorem Text.bytes_append (s t : String) :
    Text.bytes (s ++ t) = Text.bytes s ++ Text.bytes t := by
  simp [Text.bytes]

/-- A place to write to. -/
structure Sink where
  /-- How many bytes it takes in all; none for any number. -/
  limit : Option Nat
  /-- How many bytes it takes at a call; none for any number. -/
  chunk : Option Nat
  /-- What a call fails with when the sink is full; none to take nothing. -/
  fault : Option IoError
  /-- What flushing fails with. -/
  flushFault : Option IoError

namespace Sink

/-- How many of `n` bytes one call takes when the sink has taken `taken` so far. -/
def accept (s : Sink) (taken n : Nat) : Except IoError Nat :=
  let offered := (s.chunk.map (min n)).getD n
  match s.limit with
  | none => .ok offered
  | some limit =>
    if taken < limit then .ok (min offered (limit - taken))
    else
      match s.fault with
      | none => .ok 0
      | some e => .error e

/-- Write one piece to a sink that holds `taken`; what it holds in the end is
given in any case. -/
def write (s : Sink) (taken : List UInt8) : List UInt8 → Except IoError Unit × List UInt8
  | [] => (.ok (), taken)
  | b :: bs =>
    match s.accept taken.length (bs.length + 1) with
    | .error e => (.error e, taken)
    | .ok 0 => (.error .writeZero, taken)
    | .ok (n + 1) => s.write (taken ++ (b :: bs).take (n + 1)) (bs.drop n)
  termination_by bytes => bytes.length
  decreasing_by
    simp only [List.length_drop, List.length_cons]
    omega

@[simp] theorem write_nil (s : Sink) (taken : List UInt8) : s.write taken [] = (.ok (), taken) := by
  rw [write]

theorem write_of_accept_error {s : Sink} {taken : List UInt8} {b : UInt8} {bs : List UInt8}
    {e : IoError} (h : s.accept taken.length (bs.length + 1) = .error e) :
    s.write taken (b :: bs) = (.error e, taken) := by
  rw [write, h]

theorem write_of_accept_zero {s : Sink} {taken : List UInt8} {b : UInt8} {bs : List UInt8}
    (h : s.accept taken.length (bs.length + 1) = .ok 0) :
    s.write taken (b :: bs) = (.error .writeZero, taken) := by
  rw [write, h]

theorem write_of_accept_succ {s : Sink} {taken : List UInt8} {b : UInt8} {bs : List UInt8}
    {n : Nat} (h : s.accept taken.length (bs.length + 1) = .ok (n + 1)) :
    s.write taken (b :: bs) = s.write (taken ++ (b :: bs).take (n + 1)) (bs.drop n) := by
  rw [write, h]

/-- Write pieces in turn, up to the first error. -/
def writePieces (s : Sink) (taken : List UInt8) :
    List (List UInt8) → Except IoError Unit × List UInt8
  | [] => (.ok (), taken)
  | piece :: pieces =>
    match s.write taken piece with
    | (.error e, taken') => (.error e, taken')
    | (.ok (), taken') => s.writePieces taken' pieces

/-- The end of a delivery. -/
structure Delivery where
  /-- Whether it succeeded. -/
  result : Except IoError Unit
  /-- The bytes that the sink took. -/
  taken : List UInt8
  /-- How often it was flushed. -/
  flushes : Nat

/-- Write pieces to an empty sink, and flush it when they are all written. -/
def deliver (s : Sink) (pieces : List (List UInt8)) : Delivery :=
  match s.writePieces [] pieces with
  | (.error e, taken) => ⟨.error e, taken, 0⟩
  | (.ok (), taken) =>
    match s.flushFault with
    | none => ⟨.ok (), taken, 1⟩
    | some e => ⟨.error e, taken, 1⟩

/-- Deliver the diagnostic of an address. -/
def writeDiagnostic (s : Sink) (a : Address) : Delivery :=
  s.deliver ((Diagnostic.pieces a).map Text.bytes)

end Sink

end CompressedRefs
