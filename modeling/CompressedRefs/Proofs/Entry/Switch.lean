import CompressedRefs.Entry.Process
import CompressedRefs.Proofs.Session.Views

/-!
# What the switch decides

One switch is shared by everything in a process that calls an entry point, so any call may
have been preceded by a stranger's turn of it.  All that it decides is which wrong reference
stands for an address that has none, where the caller did not ask for a status: zero or that
of another address.  Both are told from a right one by decoding them.

The assertion of the codec behind the entry points is guarded by a test of their own, so no
reply stands in for one that failed.

A session goes on behind a call that ends the process.  The calls of a process that ended are
the front of such a session (`Session.runUntil_eq_run`), and what is said of all sessions is
said of fronts too.

## Main definitions

* `switchAfter` — where calls have put the switch.
* `Call.ReadsSwitch`, `Call.keepsSwitch` — calls that look at the switch, and that leave it alone.
* `Reply.StandsIn` — replies of a call in which an assertion failed.

## Main statements

* `encode_eq`, `decode_encode_eq_iff` — encoding without a status, on either side of the switch.
* `confines_step` — what one call lets through.
* `calls_switch` — what the calls of a process let through.
-/

namespace CompressedRefs.Entry

/-! ## Calls and the switch -/

/-- Where a call puts the switch, if it turns it. -/
def Call.setting? : Call → Option Bool
  | .setValidate value => some (value != 0)
  | _ => none

/-- Whether a call leaves the switch alone. -/
def Call.keepsSwitch (c : Call) : Bool := c.setting?.isNone

/-- Calls whose reply depends on the switch. -/
def Call.ReadsSwitch : Call → Prop
  | .getValidate => True
  | .encode p => ¬ p.Representable
  | _ => False

/-- Where the last of the calls that turn the switch has put it; it is on before the first. -/
def switchAfter (calls : List Call) : Bool := Session.lastSetting Call.setting? true calls

theorem step_switch (validate : Bool) (c : Call) :
    (step validate c).2 = c.setting?.getD validate := by
  cases c <;> rfl

/-- The switch is where the last call that turns it has put it. -/
theorem run_switch (calls : List Call) : (run switchAtStart calls).2 = switchAfter calls := by
  -- The state is the switch and no more, so the view is all of it.
  have hturn : ∀ validate, ∀ c ∈ calls,
      id (step validate c).2 = c.setting?.getD (id validate) := by
    intro validate c _
    exact step_switch validate c
  exact Session.view_run hturn switchAtStart

/-! ## Encoding without a status -/

/-- With the switch on a refused address becomes zero, and with it off what is left of it. -/
theorem encode_eq (validate : Bool) (a : Address) :
    encode validate a =
      .answer (if validate = true ∧ ¬ a.Representable then .null else a.truncate) := by
  by_cases ha : a.Representable
  · rw [encode_of_representable validate ha, if_neg fun h => h.2 ha]
  · cases validate with
    | true => rw [encode_true_of_not_representable ha, if_pos ⟨rfl, ha⟩]
    | false => rw [if_neg fun h => Bool.false_ne_true h.1]; rfl

/-- Every reference decodes to an address that has one, so no wrong reference decodes to the
address that it was given for. -/
theorem decode_encode_eq_iff (validate : Bool) (a : Address) :
    decode (encode validate a).value = a ↔ a.Representable := by
  constructor
  · intro h
    rw [← h]
    exact Ref.representable_decode _
  · intro ha
    rw [encode_of_representable validate ha]
    exact Address.decode_truncate ha

/-! ## Failed assertions -/

/-- The reply stands in for one that a failed assertion prevented. -/
def Reply.StandsIn : Reply → Prop
  | .encoded (.fallback _ _) => True
  | .checked status _ => status = .assertionFailed
  | .array result => result.status = .assertionFailed
  | _ => False

/-- The call with a status asserts nothing, so no assertion of it can fail. -/
theorem encodeChecked_ne_assertionFailed (a : Address) (slot : Option Ref) :
    (encodeChecked a slot).1 ≠ .assertionFailed := by
  cases slot with
  | none => exact Status.noConfusion
  | some slot =>
    by_cases ha : a.Representable
    · rw [encodeChecked_of_representable ha]
      exact Status.noConfusion
    · rw [encodeChecked_of_not_representable ha]
      exact Status.noConfusion

theorem encodeArray_ne_assertionFailed (addresses : Option (List Address)) (len : Nat)
    (slots : Option (List Ref)) (failedIndex : Option Nat) :
    (encodeArray addresses len slots failedIndex).status ≠ .assertionFailed := by
  rcases encodeArray_cases addresses len slots failedIndex with
    ⟨-, h⟩ | ⟨-, -, h⟩ | ⟨-, -, -, h | h⟩
  · rw [h]
    exact Status.noConfusion
  · rw [h]
    exact Status.noConfusion
  · rw [h]
    exact Status.noConfusion
  · rw [h]
    exact Status.noConfusion

/-- Only `encode` may meet an assertion, and it checks the address before. -/
theorem not_standsIn_step (validate : Bool) (c : Call) : ¬ (step validate c).1.StandsIn := by
  cases c with
  | encode a =>
    rw [step, encode_eq]
    exact id
  | encodeChecked a slot => exact encodeChecked_ne_assertionFailed a slot
  | encodeArray addresses len slots failedIndex =>
    exact encodeArray_ne_assertionFailed addresses len slots failedIndex
  | _ => exact id

/-! ## Sessions -/

/-- Nothing of the switch is visible to a call that does not look at it, so the view is empty. -/
theorem confines_step :
    Session.Confines step (fun _ : Bool => ()) Call.keepsSwitch
      (fun c x y => c.ReadsSwitch ∨ x = y) where
  hidden _ _ _ := rfl
  next _ _ _ _ _ := rfl
  answer on on' c hkeeps _ := by
    cases c with
    | setValidate value => cases hkeeps
    | getValidate => exact .inl trivial
    | encode a =>
      by_cases ha : a.Representable
      · refine .inr ?_
        simp only [step, encode_of_representable _ ha]
      · exact .inl ha
    | _ => exact .inr rfl

/-- **The switch decides what becomes of an address without a reference, and nothing else.**
It is where the last turn has put it, for the call that reads it and for encoding without a
status.  Calls that turn it may be put in, left out and changed: every other call gives the
same answer and leaves the same slots, unless it is one of these two.  A reference that was
given for an address decodes to it just when the address has one; and no reply ever stands in
for one that an assertion prevented. -/
theorem calls_switch (calls : List Call) :
    let on := (run switchAtStart calls).2
    (on = switchAfter calls ∧ (step on .getValidate).1 = .validate on ∧
      ∀ p : Address, ∃ r : Ref, (step on (.encode p)).1 = .encoded (.answer r) ∧
        (r.word.toNat =
          if on = true ∧ ¬ p.Representable then 0 else p.value.toNat / 8 % 0x100000000) ∧
        (decode r = p ↔ p.value.toNat % 8 = 0 ∧ p.value.toNat < 0x800000000)) ∧
    (∀ others : List Call, calls.filter Call.keepsSwitch = others.filter Call.keepsSwitch →
      Session.Agree (fun c x y => c.ReadsSwitch ∨ x = y)
        (Session.seen Call.keepsSwitch (Session.transcript step switchAtStart calls))
        (Session.seen Call.keepsSwitch (Session.transcript step switchAtStart others))) ∧
    ∀ reply ∈ (run switchAtStart calls).1, ¬ reply.StandsIn := by
  intro on
  refine ⟨⟨run_switch calls, rfl, ?_⟩, ?_, ?_⟩
  · intro p
    have hencode := encode_eq on p
    have hdecode := decode_encode_eq_iff on p
    rw [hencode] at hdecode
    refine ⟨_, congrArg Reply.encoded hencode, ?_, hdecode⟩
    split
    · rfl
    · exact p.toNat_word_truncate
  · intro others hsame
    exact confines_step.agree hsame rfl
  · exact Session.forall_mem_answers not_standsIn_step switchAtStart calls

/-- Turned off in front or turned about behind, the switch is noticed by the encoding of an
address between two multiples of eight, which gives the reference of the lower one or zero. -/
theorem calls_switch_of_turns :
    let shared : List Call := [.encode ⟨13⟩, .encodeChecked ⟨8⟩ (some ⟨7⟩), .getValidate]
    let others : List Call :=
      [.encode ⟨13⟩, .setValidate 5, .encodeChecked ⟨8⟩ (some ⟨7⟩), .getValidate, .setValidate 0]
    let calls : List Call := .setValidate 0 :: shared
    calls.filter Call.keepsSwitch = others.filter Call.keepsSwitch ∧
      (run switchAtStart calls).2 = false ∧
      Session.Agree (fun c x y => c.ReadsSwitch ∨ x = y)
        (Session.seen Call.keepsSwitch (Session.transcript step switchAtStart calls))
        (Session.seen Call.keepsSwitch (Session.transcript step switchAtStart others)) ∧
      (run switchAtStart calls).1[1]? = some (.encoded (.answer ⟨1⟩)) ∧
      (run switchAtStart others).1[0]? = some (.encoded (.answer .null)) := by
  intro shared others calls
  obtain ⟨⟨hon, -⟩, hagree, -⟩ := calls_switch calls
  exact ⟨rfl, hon, hagree others rfl, rfl, rfl⟩

end CompressedRefs.Entry
