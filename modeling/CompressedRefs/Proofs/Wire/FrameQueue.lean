import CompressedRefs.Proofs.Wire.FaultyReader
import CompressedRefs.Proofs.Wire.FaultyWriter

/-!
# A buffer is a queue of frames

A frame is the four bytes of one reference.  As long as no call can fail, a session
over a buffer cannot be told from one over a queue of frames: every request puts whole
frames in at the end or takes whole frames out at the front, in the order in which they
were put in.  Nothing marks where a frame begins, so this is what keeps the references
of one request apart from those of another.

## Main definitions

* `Frame`, `frames`, `join` — four bytes, bytes cut into frames, and frames put together.
* `FrameQueue`, `FrameQueue.step` — the frames taken out and those that wait.
* `Carries` — the invariant: the buffer holds the frames of the queue and no other byte.
-/

namespace CompressedRefs.Wire

/-- The four bytes of one reference. -/
@[ext] structure Frame where
  bytes : List UInt8
  length_bytes : bytes.length = 4

/-- The bytes of frames, one after another. -/
def join (ws : List Frame) : List UInt8 := ws.flatMap Frame.bytes

/-- Bytes cut into frames; up to three bytes at the end belong to no frame. -/
def frames : List UInt8 → List Frame
  | b₀ :: b₁ :: b₂ :: b₃ :: rest => ⟨[b₀, b₁, b₂, b₃], rfl⟩ :: frames rest
  | _ => []

@[simp] theorem join_nil : join [] = [] := rfl

@[simp] theorem join_cons (w : Frame) (ws : List Frame) : join (w :: ws) = w.bytes ++ join ws := rfl

@[simp] theorem join_append (vs ws : List Frame) : join (vs ++ ws) = join vs ++ join ws :=
  List.flatMap_append

@[simp] theorem length_join (ws : List Frame) : (join ws).length = 4 * ws.length := by
  induction ws with
  | nil => rfl
  | cons w ws ih =>
    rw [join_cons, List.length_append, w.length_bytes, ih, List.length_cons]
    omega

theorem take_join (n : Nat) (ws : List Frame) : (join ws).take (4 * n) = join (ws.take n) := by
  induction n generalizing ws with
  | zero => simp
  | succ n ih =>
    cases ws with
    | nil => simp
    | cons w ws =>
      have hw := w.length_bytes
      rw [join_cons, Nat.mul_succ, Nat.add_comm, ← hw, List.take_length_add_append, hw, ih,
        List.take_succ_cons, join_cons]

/-- Bytes of a length that four divides are frames and nothing else. -/
theorem join_frames {bytes : List UInt8} (h : 4 ∣ bytes.length) : join (frames bytes) = bytes := by
  fun_induction frames bytes with
  | case1 b₀ b₁ b₂ b₃ rest ih =>
    simp only [List.length_cons] at h
    rw [join_cons, ih (by omega)]
    rfl
  | case2 bytes hshort =>
    -- Fewer than four bytes, and a multiple of four: none.
    rcases bytes with _ | ⟨b₀, _ | ⟨b₁, _ | ⟨b₂, _ | ⟨b₃, rest⟩⟩⟩⟩
    case nil => rfl
    case cons.cons.cons.cons => exact absurd rfl (hshort b₀ b₁ b₂ b₃ rest)
    all_goals
      simp only [List.length_cons, List.length_nil] at h
      omega

theorem frames_join (ws : List Frame) : frames (join ws) = ws := by
  induction ws with
  | nil => rfl
  | cons w ws ih =>
    obtain ⟨bytes, hbytes⟩ := w
    match bytes, hbytes with
    | [b₀, b₁, b₂, b₃], _ => exact congrArg (_ :: ·) ih

/-- The addresses that bytes spell are those of their frames. -/
theorem addressesAt_join (order : ByteOrder) {n : Nat} {ws : List Frame} (hn : n ≤ ws.length) :
    addressesAt order n (join ws) =
      (ws.take n).map fun w => (order.deserialize w.bytes).decode := by
  induction n generalizing ws with
  | zero => rfl
  | succ n ih =>
    cases ws with
    | nil => exact absurd hn (Nat.not_succ_le_zero n)
    | cons w ws =>
      have hw := w.length_bytes
      rw [addressesAt_succ, join_cons, ← hw, List.take_left, List.drop_left, List.take_succ_cons,
        List.map_cons, ih (Nat.le_of_succ_le_succ hn)]

/-! ## What requests put into a queue -/

/-- The frame of a reference. -/
def frame (order : ByteOrder) (r : Ref) : Frame := ⟨order.serialize r, order.length_serialize r⟩

/-- The frames of the addresses in front of the first refused one. -/
def acceptedFrames (order : ByteOrder) (as : List Address) : List Frame :=
  (as.take (firstRefused as)).map fun a => frame order a.eighth

theorem join_acceptedFrames (order : ByteOrder) (as : List Address) :
    join (acceptedFrames order as) = acceptedBytes order as := by
  rw [join, acceptedFrames, List.flatMap_map]
  rfl

/-- The frames that a request adds. -/
def Buffer.Step.frames : Step → List Frame
  | writeRef order r => [frame order r]
  | writeAddresses order as => acceptedFrames order as
  | readRef _ => []
  | readAddresses _ _ => []

/-! ## The queue -/

/-- The frames that were taken out and those that wait, in the order in which they
were put in. -/
structure FrameQueue where
  taken : List Frame
  waiting : List Frame

namespace FrameQueue

/-- Every frame that was ever put in. -/
def all (q : FrameQueue) : List Frame := q.taken ++ q.waiting

/-- Put frames in at the end. -/
def put (q : FrameQueue) (ws : List Frame) : FrameQueue := { q with waiting := q.waiting ++ ws }

/-- Take `n` frames out at the front, or all when fewer wait. -/
def take (q : FrameQueue) (n : Nat) : FrameQueue :=
  ⟨q.taken ++ q.waiting.take n, q.waiting.drop n⟩

/-- What a request gives.  A reading one that asks for more than waits gives nothing. -/
def result (q : FrameQueue) : Buffer.Step → Except WireError Buffer.Value
  | .writeRef _ _ => .ok .written
  | .writeAddresses _ as => tableResult as
  | .readRef order =>
    match q.waiting with
    | [] => .error (.io .unexpectedEnd)
    | w :: _ => .ok (.ref (order.deserialize w.bytes))
  | .readAddresses order n =>
    if n ≤ q.waiting.length then
      .ok (.addresses ((q.waiting.take n).map fun w => (order.deserialize w.bytes).decode))
    else .error (.io .unexpectedEnd)

/-- The queue after a request.  A reading one takes what it asked for also when that
was too much. -/
def next (q : FrameQueue) : Buffer.Step → FrameQueue
  | .writeRef order r => q.put [frame order r]
  | .writeAddresses order as => q.put (acceptedFrames order as)
  | .readRef _ => q.take 1
  | .readAddresses _ n => q.take n

/-- The answer to a request, as a buffer would give it, and the queue for the next. -/
def step (q : FrameQueue) (s : Buffer.Step) : Buffer.Answer × FrameQueue :=
  (⟨q.result s, join s.frames, 4 * (q.next s).all.length, 4 * (q.next s).taken.length⟩, q.next s)

theorem all_put (q : FrameQueue) (ws : List Frame) : (q.put ws).all = q.all ++ ws :=
  (List.append_assoc ..).symm

theorem all_take (q : FrameQueue) (n : Nat) : (q.take n).all = q.all := by
  rw [all, all, take, List.append_assoc, List.take_append_drop]

/-- A request adds its frames at the end, and no request removes or moves a frame. -/
theorem all_next (q : FrameQueue) (s : Buffer.Step) : (q.next s).all = q.all ++ s.frames := by
  cases s with
  | writeRef order r => exact q.all_put _
  | writeAddresses order as => exact q.all_put _
  | readRef order => exact (q.all_take 1).trans (List.append_nil _).symm
  | readAddresses order n => exact (q.all_take n).trans (List.append_nil _).symm

/-- A session adds the frames that it writes and keeps all others, since to take some only moves
a mark. -/
theorem all_run (q : FrameQueue) (steps : List Buffer.Step) :
    (Session.run step q steps).2.all = q.all ++ steps.flatMap Buffer.Step.frames := by
  induction steps generalizing q with
  | nil => exact (List.append_nil _).symm
  | cons s steps ih =>
    rw [Session.run_cons, List.flatMap_cons, ih, ← List.append_assoc]
    exact congrArg (· ++ _) (q.all_next s)

end FrameQueue

/-! ## The buffer behaves as the queue -/

/-- A request is served first in, first out: it reads, in its own order, exactly the
frames in front of those that wait, or says that there are too few and uses them up;
and what it adds are its own frames. -/
def Buffer.Serves (b : Buffer) (waiting : List Frame) (s : Step) : Prop :=
  (b.step s).1.wrote = join s.frames ∧
  match s with
  | .writeRef _ _ => (b.step s).1.result = .ok .written ∧ (b.step s).1.position = b.position
  | .writeAddresses _ as =>
    (b.step s).1.result = tableResult as ∧ (b.step s).1.position = b.position
  | .readRef order =>
    match waiting with
    | [] =>
      (b.step s).1.result = .error (.io .unexpectedEnd) ∧
        (b.step s).1.position = b.contents.length
    | w :: _ =>
      (b.step s).1.result = .ok (.ref (order.deserialize w.bytes)) ∧
        (b.step s).1.position = b.position + 4
  | .readAddresses order n =>
    if n ≤ waiting.length then
      (b.step s).1.result = .ok (.addresses
        ((waiting.take n).map fun w => (order.deserialize w.bytes).decode)) ∧
        (b.step s).1.position = b.position + 4 * n
    else
      (b.step s).1.result = .error (.io .unexpectedEnd) ∧
        (b.step s).1.position = b.contents.length

/-- The buffer holds the frames of the queue, was read up to the same frame, and its
calls cannot fail. -/
structure Carries (b : Buffer) (q : FrameQueue) : Prop where
  consumed : b.consumed = join q.taken
  unread : b.unread = join q.waiting
  writeScript : Harmless b.writeScript
  readScript : Harmless b.readScript

namespace Carries

variable {b : Buffer} {q : FrameQueue}

theorem contents (h : Carries b q) : b.contents = join q.all := by
  rw [Buffer.contents, h.consumed, h.unread, FrameQueue.all, join_append]

theorem length (h : Carries b q) : b.contents.length = 4 * q.all.length := by
  rw [h.contents, length_join]

theorem position (h : Carries b q) : b.position = 4 * q.taken.length := by
  rw [Buffer.position, h.consumed, length_join]

theorem written (h : Carries b q) {ε α : Type} {t : Transfer ε α} {ws : List Frame}
    (hmoved : t.moved = join ws) (hpass : Passes b.writeScript t.script) :
    Carries (b.written t) (q.put ws) where
  consumed := h.consumed
  unread := by
    rw [Buffer.written, FrameQueue.put, h.unread, hmoved, join_append]
  writeScript := hpass.harmless h.writeScript
  readScript := h.readScript

theorem read (h : Carries b q) {ε α : Type} {t : Transfer ε α} {n : Nat}
    (hmoved : t.moved = join (q.waiting.take n)) (hpass : Passes b.readScript t.script) :
    Carries (b.read t) (q.take n) where
  consumed := by
    rw [Buffer.read, FrameQueue.take, h.consumed, hmoved, join_append]
  unread := by
    have hsplit : join q.waiting = t.moved ++ join (q.waiting.drop n) := by
      rw [hmoved, ← join_append, List.take_append_drop]
    rw [Buffer.read, FrameQueue.take, h.unread, hsplit, List.drop_left]
  writeScript := h.writeScript
  readScript := hpass.harmless h.readScript

/-- A writing request, by what its transfer did. -/
theorem answerWritten (h : Carries b q) {t : Transfer WireError Unit} {s : Buffer.Step}
    (hnext : q.next s = q.put s.frames)
    (hresult : t.result.map (fun _ => Buffer.Value.written) = q.result s)
    (hmoved : t.moved = join s.frames) (hpass : Passes b.writeScript t.script) :
    (b.answerWritten t).1 = (q.step s).1 ∧ Carries (b.answerWritten t).2 (q.step s).2 := by
  have hafter := h.written hmoved hpass
  rw [← hnext] at hafter
  refine ⟨?_, hafter⟩
  simp only [Buffer.answerWritten, FrameQueue.step, hresult, hmoved, hafter.length, hafter.position]

/-- A reading request, by what its transfer did. -/
theorem answerRead (h : Carries b q) {α : Type} {value : α → Buffer.Value}
    {t : Transfer WireError α} {s : Buffer.Step} {n : Nat} (hnext : q.next s = q.take n)
    (hframes : s.frames = []) (hresult : t.result.map value = q.result s)
    (hmoved : t.moved = join (q.waiting.take n)) (hpass : Passes b.readScript t.script) :
    (b.answerRead value t).1 = (q.step s).1 ∧
      Carries (b.answerRead value t).2 (q.step s).2 := by
  have hafter := h.read hmoved hpass
  rw [← hnext] at hafter
  refine ⟨?_, hafter⟩
  simp only [Buffer.answerRead, FrameQueue.step, hresult, hframes, join_nil, hafter.length,
    hafter.position]

/-- What the queue says of one request, the buffer does. -/
theorem step (h : Carries b q) (s : Buffer.Step) :
    (b.step s).1 = (q.step s).1 ∧ Carries (b.step s).2 (q.step s).2 := by
  cases s with
  | writeRef order r =>
    obtain ⟨hresult, hmoved, hpass⟩ := writeRef_harmless order r h.writeScript
    refine h.answerWritten rfl ?_ ?_ hpass
    · rw [hresult]
      rfl
    · rw [hmoved]
      exact (List.append_nil _).symm
  | writeAddresses order as =>
    have ht := tableWritten_writeAddressesFrom order 0 as b.writeScript
    obtain ⟨hresult, hmoved, hpass⟩ := ht.of_harmless h.writeScript
    exact h.answerWritten rfl hresult (hmoved.trans (join_acceptedFrames order as).symm) hpass
  | readRef order =>
    cases hq : q.waiting with
    | nil =>
      have hshort : b.unread.length < 4 := by
        rw [h.unread, hq]
        exact Nat.zero_lt_succ 3
      obtain ⟨hresult, hmoved, hpass⟩ := readRef_harmless_short order h.readScript hshort
      refine h.answerRead (n := 1) rfl rfl ?_ ?_ hpass
      · rw [hresult, FrameQueue.result, hq]
        rfl
      · rw [hmoved, h.unread, hq]
        rfl
    | cons w ws =>
      have hfront : b.unread.take 4 = w.bytes := by
        rw [h.unread, hq, join_cons, ← w.length_bytes, List.take_left]
      have hlong : 4 ≤ b.unread.length := by
        rw [h.unread, hq, length_join, List.length_cons]
        omega
      obtain ⟨hresult, hmoved, hpass⟩ := readRef_harmless order h.readScript hlong
      refine h.answerRead (n := 1) rfl rfl ?_ ?_ hpass
      · rw [hresult, FrameQueue.result, hq, hfront]
        rfl
      · rw [hmoved, hfront, hq]
        exact (List.append_nil _).symm
  | readAddresses order n =>
    have ht := tableRead_readAddresses order n b.unread b.readScript
    have hlength : b.unread.length = 4 * q.waiting.length := by
      rw [h.unread, length_join]
    by_cases hn : n ≤ q.waiting.length
    · obtain ⟨hresult, hmoved, hpass⟩ := ht.of_harmless h.readScript (by omega)
      refine h.answerRead (n := n) rfl rfl ?_ ?_ hpass
      · rw [hresult, FrameQueue.result, if_pos hn, h.unread, addressesAt_join order hn]
        rfl
      · rw [hmoved, h.unread, take_join]
    · obtain ⟨hresult, hmoved, hpass⟩ := ht.of_harmless_short h.readScript (by omega)
      refine h.answerRead (n := n) rfl rfl ?_ ?_ hpass
      · rw [hresult, FrameQueue.result, if_neg hn]
        rfl
      · rw [hmoved, h.unread, List.take_of_length_le (Nat.le_of_not_le hn)]

theorem ofInput {input : List UInt8} {writeScript readScript : Script} (hinput : 4 ∣ input.length)
    (hw : Harmless writeScript) (hr : Harmless readScript) :
    Carries (.ofInput input writeScript readScript) ⟨[], frames input⟩ :=
  ⟨rfl, (join_frames hinput).symm, hw, hr⟩

theorem run (h : Carries b q) (steps : List Buffer.Step) :
    (b.run steps).1 = (Session.run FrameQueue.step q steps).1 ∧
      Carries (b.run steps).2 (Session.run FrameQueue.step q steps).2 :=
  Session.run_simulation (fun _ _ s hs => hs.step s) h steps

theorem waiting_eq (h : Carries b q) : q.all.drop (b.position / 4) = q.waiting := by
  rw [h.position, Nat.mul_div_cancel_left _ (by decide : 0 < 4), FrameQueue.all, List.drop_left]

/-- The queue's answer, with the lengths counted in bytes. -/
theorem serves (h : Carries b q) (s : Buffer.Step) : b.Serves q.waiting s := by
  rw [Buffer.Serves.eq_def, (h.step s).1, h.position, h.length]
  refine ⟨rfl, ?_⟩
  have htaken : ∀ n, 4 * (q.take n).taken.length =
      4 * q.taken.length + 4 * min n q.waiting.length := by
    intro n
    rw [FrameQueue.take, List.length_append, List.length_take, Nat.mul_add]
  have hall : q.all.length = q.taken.length + q.waiting.length := List.length_append
  cases s with
  | writeRef order r => exact ⟨rfl, rfl⟩
  | writeAddresses order as => exact ⟨rfl, rfl⟩
  | readRef order =>
    have hposition := htaken 1
    cases hq : q.waiting with
    | nil =>
      rw [hq] at hall hposition
      refine ⟨by rw [FrameQueue.step, FrameQueue.result, hq], ?_⟩
      rw [hall, List.length_nil]
      exact hposition
    | cons w ws =>
      rw [hq, List.length_cons, Nat.min_eq_left (by omega)] at hposition
      exact ⟨by rw [FrameQueue.step, FrameQueue.result, hq], hposition⟩
  | readAddresses order n =>
    have hposition := htaken n
    dsimp only
    by_cases hn : n ≤ q.waiting.length
    · rw [Nat.min_eq_left hn] at hposition
      rw [if_pos hn]
      exact ⟨if_pos hn, hposition⟩
    · rw [Nat.min_eq_right (by omega), ← Nat.mul_add, ← hall] at hposition
      rw [if_neg hn]
      exact ⟨if_neg hn, hposition⟩

end Carries

/-- **Framing, first in, first out.**  Whatever was asked for before, the buffer is all
frames one after another: those of the input, and those of each request in turn.  Its
length and the reading position are whole frames, and the next request is served from
the frames behind the position. -/
theorem Buffer.run_framed {input : List UInt8} {writeScript readScript : Script}
    (hinput : 4 ∣ input.length) (hw : Harmless writeScript) (hr : Harmless readScript)
    (steps : List Step) :
    let b := (run (ofInput input writeScript readScript) steps).2
    let all := frames input ++ steps.flatMap Step.frames
    b.contents = join all ∧ 4 ∣ b.contents.length ∧ 4 ∣ b.position ∧
      ∀ s : Step, b.Serves (all.drop (b.position / 4)) s := by
  intro b all
  obtain ⟨-, h⟩ := (Carries.ofInput hinput hw hr).run steps
  have hall : (Session.run FrameQueue.step ⟨[], frames input⟩ steps).2.all = all :=
    FrameQueue.all_run _ steps
  have hwaiting := h.waiting_eq
  rw [hall] at hwaiting
  refine ⟨by rw [← hall]; exact h.contents, ⟨_, h.length⟩, ⟨_, h.position⟩, ?_⟩
  intro s
  rw [hwaiting]
  exact h.serves s

/-- A frame of the input, one that a table left in front of its refused address, and a
reader that takes the second in the order in which it was written. -/
theorem Buffer.run_framed_of_refusal :
    4 ∣ [1, 0, 0, 0].length ∧ Harmless [.upTo 3, .fail (.ofKind .interrupted)] ∧
      Harmless [.fail (.ofKind .interrupted), .upTo 1] ∧
      let b := (run (ofInput [1, 0, 0, 0] [.upTo 3, .fail (.ofKind .interrupted)]
        [.fail (.ofKind .interrupted), .upTo 1])
        [.writeAddresses .big [⟨16⟩, ⟨5⟩], .readAddresses .little 1]).2
      b.contents = [1, 0, 0, 0, 0, 0, 0, 2] ∧
        (b.step (.readRef .big)).1.result = .ok (.ref ⟨2⟩) := by
  have h := @run_framed [1, 0, 0, 0] [.upTo 3, .fail (.ofKind .interrupted)]
    [.fail (.ofKind .interrupted), .upTo 1] (by decide) (by decide) (by decide)
    [.writeAddresses .big [⟨16⟩, ⟨5⟩], .readAddresses .little 1]
  exact ⟨by decide, by decide, by decide, h.1, (h.2.2.2 (.readRef .big)).2.1⟩

end CompressedRefs.Wire
