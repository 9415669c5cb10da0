import CompressedRefs.IoError

/-!
# Transfers over unreliable channels

A channel moves bytes by single calls, and a call may move fewer bytes than it
was asked to, none, or fail.  What the calls of a channel will do is written down
in a script, one entry a call; with the script used up a call moves all it can.

A transfer repeats calls until a fixed number of bytes has moved.  An
interrupted call is repeated, any other error ends the transfer, and so does a
call that moves nothing.  Bytes that have moved stay moved, and no call is made
when nothing is left to move.  Recursion is on the script, since an interrupted
call moves no byte: the script is what every repeated call uses up.

## Main definitions

* `Call`, `Script` — what a call will do, and what the calls in turn will do.
* `Transfer` — how a transfer ended: result, bytes moved, script left, calls made.
* `Transfer.andThen` — one transfer after another that succeeded.
* `writeAll`, `readExact` — the two transfers.
-/

namespace CompressedRefs.Wire

/-- What one call of a channel will do. -/
inductive Call
  /-- Move at most `n` bytes. -/
  | upTo (n : Nat)
  /-- Move nothing and fail. -/
  | fail (e : IoError)
  deriving DecidableEq

/-- What the next calls of a channel will do, in order. -/
abbrev Script := List Call

/-- The end of a transfer. -/
@[ext] structure Transfer (ε α : Type) where
  /-- The value it gave or the error it ended with. -/
  result : Except ε α
  /-- The bytes that moved, in order. -/
  moved : List UInt8
  /-- What is left of the script. -/
  script : Script
  /-- How many calls were made. -/
  calls : Nat

namespace Transfer

variable {ε ε' α β γ : Type}

/-- The transfer that moves nothing and gives a value. -/
def pure (a : α) (script : Script) : Transfer ε α := ⟨.ok a, [], script, 0⟩

/-- The transfer that moves nothing and ends with an error. -/
def fail (e : ε) (script : Script) : Transfer ε α := ⟨.error e, [], script, 0⟩

/-- The same transfer with one more call in front, which moved `bytes`. -/
def after (bytes : List UInt8) (t : Transfer ε α) : Transfer ε α :=
  { t with moved := bytes ++ t.moved, calls := t.calls + 1 }

/-- The same transfer with another result. -/
def mapResult (f : Except ε α → Except ε' β) (t : Transfer ε α) : Transfer ε' β :=
  { t with result := f t.result }

/-- The same transfer with another value, if it gave one. -/
def map (f : α → β) (t : Transfer ε α) : Transfer ε β := t.mapResult (Except.map f)

/-- Go on after a success; an error ends both. -/
def andThen (t : Transfer ε α) (next : α → Script → Transfer ε β) : Transfer ε β :=
  match t.result with
  | .error e => { t with result := .error e }
  | .ok a =>
    let u := next a t.script
    ⟨u.result, t.moved ++ u.moved, u.script, t.calls + u.calls⟩

@[simp] theorem result_pure (a : α) (s : Script) : (pure a s : Transfer ε α).result = .ok a := rfl
@[simp] theorem moved_pure (a : α) (s : Script) : (pure a s : Transfer ε α).moved = [] := rfl
@[simp] theorem script_pure (a : α) (s : Script) : (pure a s : Transfer ε α).script = s := rfl
@[simp] theorem calls_pure (a : α) (s : Script) : (pure a s : Transfer ε α).calls = 0 := rfl

@[simp] theorem result_fail (e : ε) (s : Script) : (fail e s : Transfer ε α).result = .error e := rfl
@[simp] theorem moved_fail (e : ε) (s : Script) : (fail e s : Transfer ε α).moved = [] := rfl
@[simp] theorem script_fail (e : ε) (s : Script) : (fail e s : Transfer ε α).script = s := rfl
@[simp] theorem calls_fail (e : ε) (s : Script) : (fail e s : Transfer ε α).calls = 0 := rfl

@[simp] theorem result_after (bs : List UInt8) (t : Transfer ε α) :
    (t.after bs).result = t.result := rfl
@[simp] theorem moved_after (bs : List UInt8) (t : Transfer ε α) :
    (t.after bs).moved = bs ++ t.moved := rfl
@[simp] theorem script_after (bs : List UInt8) (t : Transfer ε α) :
    (t.after bs).script = t.script := rfl
@[simp] theorem calls_after (bs : List UInt8) (t : Transfer ε α) :
    (t.after bs).calls = t.calls + 1 := rfl

@[simp] theorem result_mapResult (f : Except ε α → Except ε' β) (t : Transfer ε α) :
    (t.mapResult f).result = f t.result := rfl
@[simp] theorem moved_mapResult (f : Except ε α → Except ε' β) (t : Transfer ε α) :
    (t.mapResult f).moved = t.moved := rfl
@[simp] theorem script_mapResult (f : Except ε α → Except ε' β) (t : Transfer ε α) :
    (t.mapResult f).script = t.script := rfl
@[simp] theorem calls_mapResult (f : Except ε α → Except ε' β) (t : Transfer ε α) :
    (t.mapResult f).calls = t.calls := rfl

@[simp] theorem result_map (f : α → β) (t : Transfer ε α) :
    (t.map f).result = t.result.map f := rfl
@[simp] theorem moved_map (f : α → β) (t : Transfer ε α) : (t.map f).moved = t.moved := rfl
@[simp] theorem script_map (f : α → β) (t : Transfer ε α) : (t.map f).script = t.script := rfl
@[simp] theorem calls_map (f : α → β) (t : Transfer ε α) : (t.map f).calls = t.calls := rfl

theorem andThen_of_ok {t : Transfer ε α} {a : α} (h : t.result = .ok a)
    (next : α → Script → Transfer ε β) :
    t.andThen next =
      ⟨(next a t.script).result, t.moved ++ (next a t.script).moved,
        (next a t.script).script, t.calls + (next a t.script).calls⟩ := by
  simp [andThen, h]

theorem andThen_of_error {t : Transfer ε α} {e : ε} (h : t.result = .error e)
    (next : α → Script → Transfer ε β) :
    t.andThen next = ⟨.error e, t.moved, t.script, t.calls⟩ := by
  simp [andThen, h]

@[simp] theorem andThen_mk_ok (a : α) (moved : List UInt8) (s : Script) (n : Nat)
    (next : α → Script → Transfer ε β) :
    (⟨.ok a, moved, s, n⟩ : Transfer ε α).andThen next =
      ⟨(next a s).result, moved ++ (next a s).moved, (next a s).script, n + (next a s).calls⟩ := rfl

@[simp] theorem andThen_mk_error (e : ε) (moved : List UInt8) (s : Script) (n : Nat)
    (next : α → Script → Transfer ε β) :
    (⟨.error e, moved, s, n⟩ : Transfer ε α).andThen next = ⟨.error e, moved, s, n⟩ := rfl

/-- Transfers in a row may be grouped at will. -/
theorem andThen_assoc (t : Transfer ε α) (f : α → Script → Transfer ε β)
    (g : β → Script → Transfer ε γ) :
    (t.andThen f).andThen g = t.andThen fun a s => (f a s).andThen g := by
  cases h : t.result with
  | error e => rw [andThen_of_error h, andThen_mk_error, andThen_of_error h]
  | ok a =>
    rw [andThen_of_ok h, andThen_of_ok h]
    cases h' : (f a t.script).result with
    | error e => rw [andThen_mk_error, andThen_of_error h']
    | ok b => rw [andThen_mk_ok, andThen_of_ok h']; simp [Nat.add_assoc]

@[simp] theorem pure_andThen (a : α) (s : Script) (next : α → Script → Transfer ε β) :
    (pure a s : Transfer ε α).andThen next = next a s := by
  rw [pure, andThen_mk_ok, List.nil_append, Nat.zero_add]

@[simp] theorem fail_andThen (e : ε) (s : Script) (next : α → Script → Transfer ε β) :
    (fail e s : Transfer ε α).andThen next = fail e s := rfl

theorem map_id (t : Transfer ε α) : t.map id = t := by
  rcases t with ⟨_ | _, moved, s, n⟩ <;> rfl

theorem map_map (f : α → β) (g : β → γ) (t : Transfer ε α) :
    (t.map f).map g = t.map (g ∘ f) := by
  rcases t with ⟨_ | _, moved, s, n⟩ <;> rfl

theorem map_andThen (f : α → β) (t : Transfer ε α) (next : β → Script → Transfer ε γ) :
    (t.map f).andThen next = t.andThen fun a => next (f a) := by
  rcases t with ⟨_ | _, moved, s, n⟩ <;> rfl

theorem andThen_map (t : Transfer ε α) (next : α → Script → Transfer ε β) (g : β → γ) :
    (t.andThen next).map g = t.andThen fun a s => (next a s).map g := by
  rcases t with ⟨_ | _, moved, s, n⟩ <;> rfl

/-- Errors may be told anew after the first of two transfers if that changes none of its own. -/
theorem andThen_mapError {f : ε → ε} {t : Transfer ε α} (ht : ∀ e, t.result = .error e → f e = e)
    (next : α → Script → Transfer ε β) :
    (t.andThen next).mapResult (Except.mapError f) =
      t.andThen fun a s => (next a s).mapResult (Except.mapError f) := by
  cases h : t.result with
  | ok a =>
    rw [andThen_of_ok h, andThen_of_ok h]
    rfl
  | error e =>
    rw [andThen_of_error h, andThen_of_error h]
    exact congrArg (fun e => (⟨.error e, t.moved, t.script, t.calls⟩ : Transfer ε β)) (ht e h)

end Transfer

/-! ## Writing -/

/-- Write all of the bytes, one call of the channel after another. -/
def writeAll : List UInt8 → Script → Transfer IoError Unit
  | [], script => .pure () script
  | b :: bs, [] => ⟨.ok (), b :: bs, [], 1⟩
  | b :: bs, .fail e :: script =>
    if e.isInterrupted then (writeAll (b :: bs) script).after [] else ⟨.error e, [], script, 1⟩
  | b :: bs, .upTo n :: script =>
    if n = 0 then ⟨.error .writeZero, [], script, 1⟩
    else (writeAll ((b :: bs).drop n) script).after ((b :: bs).take n)

@[simp] theorem writeAll_nil (script : Script) : writeAll [] script = .pure () script := by
  cases script <;> rfl

/-- What was written is the front of what had to be: all of it after a success,
not all of it after an error. -/
theorem writeAll_moved (bytes : List UInt8) (script : Script) :
    match (writeAll bytes script).result with
    | .ok () => (writeAll bytes script).moved = bytes
    | .error _ => ∃ b rest, bytes = (writeAll bytes script).moved ++ b :: rest := by
  fun_induction writeAll bytes script with
  | case1 => rfl
  | case2 => rfl
  | case3 b bs e script h ih => simpa using ih
  | case4 b bs e script h => exact ⟨b, bs, rfl⟩
  | case5 b bs script => exact ⟨b, bs, rfl⟩
  | case6 b bs n script h ih =>
    simp only [Transfer.result_after, Transfer.moved_after]
    split
    · rename_i h'
      rw [h'] at ih
      simp only at ih
      rw [ih, List.take_append_drop]
    · rename_i e h'
      rw [h'] at ih
      obtain ⟨c, rest, hc⟩ := ih
      exact ⟨c, rest, by rw [List.append_assoc, ← hc, List.take_append_drop]⟩

/-! ## Reading -/

/-- Read `n` bytes off the front of those that are unread, one call of the
channel after another.  A call at the end of the input reads nothing. -/
def readExact : Nat → List UInt8 → Script → Transfer IoError Unit
  | 0, _, script => .pure () script
  | n + 1, unread, [] =>
    let got := unread.take (n + 1)
    if got.length = n + 1 then ⟨.ok (), got, [], 1⟩
    else ⟨.error .unexpectedEnd, got, [], if got.isEmpty then 1 else 2⟩
  | n + 1, unread, .fail e :: script =>
    if e.isInterrupted then (readExact (n + 1) unread script).after []
    else ⟨.error e, [], script, 1⟩
  | n + 1, unread, .upTo m :: script =>
    let got := unread.take (min m (n + 1))
    if got.isEmpty then ⟨.error .unexpectedEnd, [], script, 1⟩
    else (readExact (n + 1 - got.length) (unread.drop got.length) script).after got

@[simp] theorem readExact_zero (unread : List UInt8) (script : Script) :
    readExact 0 unread script = .pure () script := by
  cases script <;> rfl

/-- What was read is the front of what was unread: `n` bytes after a success,
fewer after an error. -/
theorem readExact_moved (n : Nat) (unread : List UInt8) (script : Script) :
    match (readExact n unread script).result with
    | .ok () => n ≤ unread.length ∧ (readExact n unread script).moved = unread.take n
    | .error _ => ∃ k < n, (readExact n unread script).moved = unread.take k ∧ k ≤ unread.length := by
  fun_induction readExact n unread script with
  | case1 => simp
  | case2 n unread got h =>
    have hlen : got.length = min (n + 1) unread.length := List.length_take
    exact ⟨by omega, rfl⟩
  | case3 n unread got h =>
    have hlen : got.length = min (n + 1) unread.length := List.length_take
    refine ⟨unread.length, by omega, ?_, Nat.le_refl _⟩
    rw [List.take_length]
    exact List.take_of_length_le (by omega)
  | case4 n unread e script h ih => simpa using ih
  | case5 n unread e script h => exact ⟨0, by omega, by simp, by omega⟩
  | case6 n unread m script got h => exact ⟨0, by omega, by simp, by omega⟩
  | case7 n unread m script got h ih =>
    have hlen : got.length = min (min m (n + 1)) unread.length := List.length_take
    have hgot : unread.take got.length = got := by
      rw [hlen, List.take_eq_take_iff]
      omega
    have join : ∀ k, got ++ (unread.drop got.length).take k = unread.take (got.length + k) := by
      intro k
      rw [List.take_add, hgot]
    simp only [Transfer.result_after, Transfer.moved_after]
    split
    · rename_i h'
      rw [h'] at ih
      simp only [List.length_drop] at ih
      refine ⟨by omega, ?_⟩
      rw [ih.2, join]
      congr 1
      omega
    · rename_i e h'
      rw [h'] at ih
      obtain ⟨k, hk, hmoved, hle⟩ := ih
      rw [List.length_drop] at hle
      exact ⟨got.length + k, by omega, by rw [hmoved, join], by omega⟩

end CompressedRefs.Wire
