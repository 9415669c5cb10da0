import CompressedRefs.Sink
import CompressedRefs.Wire.Transfer

/-!
# Where a text ends in a sink of limited size

A sink that is large enough for a text takes it and is flushed once.  Any other sink takes
the front that it has room for, to the byte, and fails with its own error.  In between lie
the pieces that the text is written in and the calls that each piece takes, and neither
leaves a trace: what a sink holds is always a front of what it was to hold.

A sink is a channel too.  Each of its pieces is a transfer of its own over the calls that
the sink makes, and since the error of a full sink is no interruption, repeating interrupted
calls changes nothing.

## Main definitions

* `Sink.Fits`, `Sink.overflow` — how much there is room for, and what happens behind it.
* `Sink.pour`, `Sink.deliverAtOnce` — a text at one go, said without calls and without pieces.
* `Sink.calls` — the calls of a sink as a script.

## Main statements

* `Sink.write_eq_pour`, `Sink.writePieces_eq_pour` — calls and pieces leave no trace.
* `Sink.write_eq_writeAll` — a piece is a transfer over the calls of the sink.
* `Sink.writeDiagnostic_exact` — the diagnostic, for every limit and every chunk.
-/

namespace CompressedRefs.Sink

variable {s : Sink}

/-- The sink is large enough for `n` bytes in all. -/
def Fits (s : Sink) (n : Nat) : Prop := ∀ limit, s.limit = some limit → n ≤ limit

/-- The error of a full sink. -/
def overflow (s : Sink) : IoError := s.fault.getD .writeZero

/-- What flushing gives. -/
def flush (s : Sink) : Except IoError Unit :=
  match s.flushFault with
  | none => .ok ()
  | some e => .error e

/-- What becomes of bytes that are offered at one go: the sink takes them all, or the front
that it has room for. -/
def pour (s : Sink) (bytes : List UInt8) : Except IoError Unit × List UInt8 :=
  match s.limit with
  | none => (.ok (), bytes)
  | some limit =>
    if bytes.length ≤ limit then (.ok (), bytes) else (.error s.overflow, bytes.take limit)

theorem fits_or_exceeds (s : Sink) (n : Nat) :
    s.Fits n ∨ ∃ limit, s.limit = some limit ∧ limit < n := by
  cases hlimit : s.limit with
  | none => exact .inl fun limit h => by rw [hlimit] at h; cases h
  | some limit =>
    rcases Nat.lt_or_ge limit n with hlt | hge
    · exact .inr ⟨limit, rfl, hlt⟩
    · refine .inl fun limit' h => ?_
      rw [hlimit] at h
      cases h
      exact hge

theorem pour_of_fits {bytes : List UInt8} (h : s.Fits bytes.length) :
    s.pour bytes = (.ok (), bytes) := by
  cases hlimit : s.limit with
  | none => simp only [pour, hlimit]
  | some limit => simp only [pour, hlimit, if_pos (h limit hlimit)]

theorem pour_of_exceeds {bytes : List UInt8} {limit : Nat} (hlimit : s.limit = some limit)
    (h : limit < bytes.length) : s.pour bytes = (.error s.overflow, bytes.take limit) := by
  simp only [pour, hlimit, if_neg (Nat.not_le_of_lt h)]

/-! ## One call -/

/-- No call takes more than it is offered. -/
theorem accept_le {taken n k : Nat} (h : s.accept taken n = .ok k) : k ≤ n := by
  have hoffered : (s.chunk.map (min n)).getD n ≤ n := by
    cases s.chunk with
    | none => exact Nat.le_refl n
    | some chunk => exact Nat.min_le_left n chunk
  unfold accept at h
  split at h
  · cases h
    exact hoffered
  · split at h
    · cases h
      exact Nat.le_trans (Nat.min_le_left _ _) hoffered
    · split at h
      · cases h
        exact Nat.zero_le n
      · cases h

/-- A call fails when the sink is full and says so. -/
theorem fault_of_accept {taken n : Nat} {e : IoError} (h : s.accept taken n = .error e) :
    s.fault = some e := by
  unfold accept at h
  split at h
  · cases h
  · split at h
    · cases h
    · split at h
      · cases h
      · cases h
        assumption

/-- A call takes something as long as there is room for it. -/
theorem accept_of_fits (hchunk : s.chunk ≠ some 0) {taken : Nat} (hroom : s.Fits (taken + 1))
    (n : Nat) : ∃ k, s.accept taken (n + 1) = .ok (k + 1) ∧ s.Fits (taken + (k + 1)) := by
  have hoffered : 0 < (s.chunk.map (min (n + 1))).getD (n + 1) := by
    cases hc : s.chunk with
    | none => exact Nat.succ_pos n
    | some chunk =>
      have hpos : 0 < chunk := Nat.pos_of_ne_zero fun h => hchunk (by rw [hc, h])
      exact Nat.lt_min.mpr ⟨Nat.succ_pos n, hpos⟩
  cases hlimit : s.limit with
  | none =>
    refine ⟨(s.chunk.map (min (n + 1))).getD (n + 1) - 1, ?_, fun limit h => ?_⟩
    · simp only [accept, hlimit, Nat.sub_add_cancel hoffered]
    · rw [hlimit] at h
      cases h
  | some limit =>
    have hlt : taken < limit := hroom limit hlimit
    refine ⟨min ((s.chunk.map (min (n + 1))).getD (n + 1)) (limit - taken) - 1, ?_, ?_⟩
    · have hpos : 0 < min ((s.chunk.map (min (n + 1))).getD (n + 1)) (limit - taken) :=
        Nat.lt_min.mpr ⟨hoffered, Nat.sub_pos_of_lt hlt⟩
      simp only [accept, hlimit, if_pos hlt, Nat.sub_add_cancel hpos]
    · intro limit' h
      rw [hlimit] at h
      cases h
      omega

/-- A sink that holds all it can and is to hold more is full to the byte. -/
theorem limit_of_not_fits {n : Nat} (h : s.Fits n) (h' : ¬ s.Fits (n + 1)) : s.limit = some n := by
  rcases s.fits_or_exceeds (n + 1) with hfits | ⟨limit, hlimit, hlt⟩
  · exact absurd hfits h'
  · have hle := h limit hlimit
    rw [hlimit, Nat.le_antisymm (Nat.le_of_lt_succ hlt) hle]

/-- A full sink takes nothing more, and whether it fails or takes nothing makes the same error. -/
theorem write_of_full {taken : List UInt8} (hfull : s.limit = some taken.length) (b : UInt8)
    (bs : List UInt8) : s.write taken (b :: bs) = (.error s.overflow, taken) := by
  cases hfault : s.fault with
  | none =>
    rw [overflow, hfault, Option.getD_none]
    exact write_of_accept_zero (by simp only [accept, hfull, Nat.lt_irrefl, if_false, hfault])
  | some e =>
    rw [overflow, hfault, Option.getD_some]
    exact write_of_accept_error (by simp only [accept, hfull, Nat.lt_irrefl, if_false, hfault])

/-! ## Pieces and texts -/

/-- The induction follows the calls.  As long as there is room each of them takes something,
and what is written then is still to be held behind what was. -/
theorem write_eq_pour (hchunk : s.chunk ≠ some 0) {taken : List UInt8}
    (htaken : s.Fits taken.length) (bytes : List UInt8) :
    s.write taken bytes = s.pour (taken ++ bytes) := by
  induction hn : bytes.length using Nat.strongRecOn generalizing taken bytes with
  | ind n ih =>
    rcases bytes with _ | ⟨b, bs⟩
    · rw [write_nil, List.append_nil, pour_of_fits htaken]
    by_cases hroom : s.Fits (taken.length + 1)
    · obtain ⟨k, hk, hfits⟩ := accept_of_fits hchunk hroom bs.length
      have hle := accept_le hk
      have hheld : s.Fits (taken ++ (b :: bs).take (k + 1)).length := by
        rw [List.length_append, List.length_take, List.length_cons, Nat.min_eq_left hle]
        exact hfits
      have hless : (bs.drop k).length < n := by
        rw [← hn, List.length_drop, List.length_cons]
        omega
      rw [write_of_accept_succ hk, ih _ hless hheld _ rfl, List.append_assoc]
      have hwhole := List.take_append_drop (k + 1) (b :: bs)
      exact congrArg (fun bytes => s.pour (taken ++ bytes)) hwhole
    · have hfull := limit_of_not_fits htaken hroom
      have hexceeds : taken.length < (taken ++ b :: bs).length := by
        rw [List.length_append, List.length_cons]
        omega
      rw [write_of_full hfull, pour_of_exceeds hfull hexceeds, List.take_left]

/-- By induction on the pieces.  Behind a piece that did not fit nothing is written, and the front
that was taken is the front of the whole too. -/
theorem writePieces_eq_pour (hchunk : s.chunk ≠ some 0) {taken : List UInt8}
    (htaken : s.Fits taken.length) (pieces : List (List UInt8)) :
    s.writePieces taken pieces = s.pour (taken ++ pieces.flatten) := by
  induction pieces generalizing taken with
  | nil => rw [writePieces, List.flatten_nil, List.append_nil, pour_of_fits htaken]
  | cons piece pieces ih =>
    rw [writePieces, write_eq_pour hchunk htaken, List.flatten_cons, ← List.append_assoc]
    rcases s.fits_or_exceeds (taken ++ piece).length with hfits | ⟨limit, hlimit, hlt⟩
    · rw [pour_of_fits hfits]
      exact ih hfits
    · have hlonger : limit < (taken ++ piece ++ pieces.flatten).length := by
        rw [List.length_append]
        omega
      rw [pour_of_exceeds hlimit hlt, pour_of_exceeds hlimit hlonger,
        List.take_append_of_le_length (Nat.le_of_lt hlt)]

/-- The delivery of bytes that are offered at one go. -/
def deliverAtOnce (s : Sink) (bytes : List UInt8) : Delivery :=
  match s.pour bytes with
  | (.error e, taken) => ⟨.error e, taken, 0⟩
  | (.ok (), taken) => ⟨s.flush, taken, 1⟩

/-- A delivery depends on the bytes of its pieces alone. -/
theorem deliver_eq_deliverAtOnce (hchunk : s.chunk ≠ some 0) (pieces : List (List UInt8)) :
    s.deliver pieces = s.deliverAtOnce pieces.flatten := by
  have hempty : s.Fits ([] : List UInt8).length := fun limit _ => Nat.zero_le limit
  rw [deliver, writePieces_eq_pour hchunk hempty, List.nil_append, deliverAtOnce]
  rcases s.pour pieces.flatten with ⟨_ | _, taken⟩
  · rfl
  · rw [flush]
    cases s.flushFault <;> rfl

/-! ## Sinks as channels -/

/-- The calls that writing `n` bytes to a sink makes, by what each of them does. -/
def calls (s : Sink) (taken : Nat) : Nat → Wire.Script
  | 0 => []
  | n + 1 =>
    match s.accept taken (n + 1) with
    | .error e => [.fail e]
    | .ok 0 => [.upTo 0]
    | .ok (k + 1) => .upTo (k + 1) :: s.calls (taken + (k + 1)) (n - k)
  termination_by n => n

/-- A full sink fails with an error that no transfer repeats, so both end at the same call. -/
theorem write_eq_writeAll (hfault : ∀ e, s.fault = some e → e.isInterrupted = false)
    (taken bytes : List UInt8) :
    s.write taken bytes =
      ((Wire.writeAll bytes (s.calls taken.length bytes.length)).result,
        taken ++ (Wire.writeAll bytes (s.calls taken.length bytes.length)).moved) := by
  fun_induction Sink.write s taken bytes with
  | case1 taken => simp
  | case2 taken b bs e h =>
    have he := hfault e (fault_of_accept h)
    simp [calls, h, Wire.writeAll, he]
  | case3 taken b bs h => simp [calls, h, Wire.writeAll]
  | case4 taken b bs n h ih =>
    have hle := accept_le h
    have hheld : (taken ++ (b :: bs).take (n + 1)).length = taken.length + (n + 1) := by
      rw [List.length_append, List.length_take, List.length_cons, Nat.min_eq_left hle]
    rw [hheld, List.length_drop] at ih
    rw [ih, List.length_cons, calls, h]
    simp [Wire.writeAll]

/-! ## The diagnostic -/

theorem flatten_bytes_pieces (a : Address) :
    ((Diagnostic.pieces a).map Text.bytes).flatten = Text.bytes (Diagnostic.text a) := by
  rw [Diagnostic.text_eq]
  simp [Diagnostic.pieces]

/-- **A diagnostic is delivered whole or up to the limit.**  It is two lines, of which the first
has the address in it.  A sink that is large enough takes all of it and is flushed once, and
only flushing can fail.  Any other takes exactly the front that it has room for, fails with its
own error and is not flushed.  Neither the chunks nor the pieces matter, and each piece is a
transfer that would repeat interrupted calls. -/
theorem writeDiagnostic_exact (s : Sink) (a : Address) (hchunk : s.chunk ≠ some 0)
    (hfault : ∀ e, s.fault = some e → e.isInterrupted = false) :
    let T := Text.bytes
      ("fatal error: pointer " ++ a.text ++ " too big or misaligned.\n" ++
        "This can occur if static data is placed after the first 32GB of virtual address space.\n")
    let delivery := s.writeDiagnostic a
    ((∀ limit, s.limit = some limit → T.length ≤ limit) →
      delivery = ⟨match s.flushFault with | none => .ok () | some e => .error e, T, 1⟩) ∧
    (∀ limit, s.limit = some limit → limit < T.length →
      delivery =
        ⟨.error (match s.fault with
          | none => ⟨.writeZero, "failed to write whole buffer"⟩
          | some e => e), T.take limit, 0⟩) ∧
    (∀ chunk, chunk ≠ some 0 → { s with chunk := chunk }.writeDiagnostic a = delivery) ∧
    (∀ pieces, pieces.flatten = T → s.deliver pieces = delivery) ∧
    ∀ taken piece, s.write taken piece =
      ((Wire.writeAll piece (s.calls taken.length piece.length)).result,
        taken ++ (Wire.writeAll piece (s.calls taken.length piece.length)).moved) := by
  intro T delivery
  have hpieces : ((Diagnostic.pieces a).map Text.bytes).flatten = T :=
    (flatten_bytes_pieces a).trans (congrArg Text.bytes (Diagnostic.text_eq a))
  have hdelivery : delivery = s.deliverAtOnce T :=
    (deliver_eq_deliverAtOnce hchunk _).trans (congrArg s.deliverAtOnce hpieces)
  refine ⟨?_, ?_, ?_, ?_, write_eq_writeAll hfault⟩
  · intro hfits
    rw [hdelivery, deliverAtOnce, pour_of_fits hfits]
    rfl
  · intro limit hlimit hlt
    rw [hdelivery, deliverAtOnce, pour_of_exceeds hlimit hlt, overflow]
    cases s.fault <;> rfl
  · intro chunk hchunk'
    have hother : { s with chunk := chunk }.writeDiagnostic a =
        { s with chunk := chunk }.deliverAtOnce T :=
      (deliver_eq_deliverAtOnce hchunk' _).trans
        (congrArg ({ s with chunk := chunk } : Sink).deliverAtOnce hpieces)
    exact hother.trans hdelivery.symm
  · intro pieces hwhole
    rw [deliver_eq_deliverAtOnce hchunk, hwhole, hdelivery]

/-- A limit inside the printed address, and one that is just the length of the diagnostic of a
sink that takes a byte a call and cannot be flushed. -/
theorem writeDiagnostic_exact_of_limits :
    let a : Address := ⟨0x800000000⟩
    let T := Text.bytes
      ("fatal error: pointer 0x800000000 too big or misaligned.\n" ++
        "This can occur if static data is placed after the first 32GB of virtual address space.\n")
    let small : Sink := ⟨some 25, some 4, some (.ofKind .brokenPipe), none⟩
    let fitting : Sink := ⟨some T.length, some 1, none, some (.ofKind .other)⟩
    small.chunk ≠ some 0 ∧ (∀ e, small.fault = some e → e.isInterrupted = false) ∧
      T.length = 143 ∧ fitting.chunk ≠ some 0 ∧
      small.writeDiagnostic a =
        ⟨.error (.ofKind .brokenPipe), Text.bytes "fatal error: pointer 0x80", 0⟩ ∧
      small.deliver [T] = small.writeDiagnostic a ∧
      { small with chunk := none }.writeDiagnostic a = small.writeDiagnostic a ∧
      fitting.writeDiagnostic a = ⟨.error (.ofKind .other), T, 1⟩ := by
  intro a T small fitting
  have hsmall : small.chunk ≠ some 0 := by simp [small]
  have hfitting : fitting.chunk ≠ some 0 := by simp [fitting]
  have hfault : ∀ e, small.fault = some e → e.isInterrupted = false := by
    intro e he
    cases he
    rfl
  have hfault' : ∀ e, fitting.fault = some e → e.isInterrupted = false := by
    intro e he
    cases he
  have hT : Text.bytes
      ("fatal error: pointer " ++ a.text ++ " too big or misaligned.\n" ++
        "This can occur if static data is placed after the first 32GB of virtual address space.\n") =
      T := by decide +kernel
  have hlength : T.length = 143 := by decide +kernel
  have hfront : T.take 25 = Text.bytes "fatal error: pointer 0x80" := by decide +kernel
  have hexact := small.writeDiagnostic_exact a hsmall hfault
  have hexact' := fitting.writeDiagnostic_exact a hfitting hfault'
  rw [hT] at hexact hexact'
  obtain ⟨-, hlimit, hchunks, hpieces, -⟩ := hexact
  obtain ⟨hfits, -⟩ := hexact'
  refine ⟨hsmall, hfault, hlength, hfitting, ?_, hpieces [T] (List.append_nil T),
    hchunks none (by simp), ?_⟩
  · rw [← hfront]
    exact hlimit 25 rfl (by rw [hlength]; decide)
  · refine hfits fun limit h => ?_
    cases h
    exact Nat.le_refl _

end CompressedRefs.Sink
