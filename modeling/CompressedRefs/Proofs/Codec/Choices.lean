import CompressedRefs.Codec.Session
import CompressedRefs.Proofs.Session.Views

/-!
# The choices of a codec are independent

A codec is reconfigured between its uses.  Each choice is the one made last, resetting makes
both afresh, and no use makes one.  Whether to assert is seen by the unchecked encoding alone,
and the failure policy by the checked one alone, which makes of a refusal what the policy says
and of anything else what it would be without a codec.

A diagnostic is written for each refusal that is not just returned, and something is told of
each assertion that fails, so all that stands on the standard error output after a session can
be told from its requests.

A session goes on behind an encoding that ends the process.  The requests of a process that
ended are the front of such a session (`runInProcess_eq`), and what is said of all sessions is
said of fronts too.

## Main definitions

* `sinceReset`, `validateAfter`, `policyAfter` — the choices that requests leave.
* `Step.ReadsValidate`, `Refusal`, `Step.AlikeButPolicy` — what of an answer depends on a choice.
* `Step.diagnostic`, `Step.complaint` — what a request writes, and what is told of it.

## Main statements

* `run_standard` — each choice is the one made last.
* `confines_validate`, `confines_policy` — what one request lets through of either choice.
* `written_run` — what stands on the standard error output after a session.
* `runInProcess_eq` — a session in one process.
* `run_choices` — all of it over a whole session.
-/

namespace CompressedRefs.Codec

/-! ## The choices made last -/

/-- Whether a request goes back to the default choices. -/
def Step.isReset : Step → Bool
  | .reset => true
  | _ => false

/-- The choice of whether to assert that a request makes, if it makes one. -/
def Step.validate? : Step → Option Bool
  | .setValidateUnchecked on => some on
  | _ => none

/-- The failure policy that a request chooses, if it chooses one. -/
def Step.policy? : Step → Option FailurePolicy
  | .setFailurePolicy policy => some policy
  | _ => none

/-- The requests behind the last reset, or all when there is none. -/
def sinceReset (steps : List Step) : List Step := steps.rtakeWhile fun s => !s.isReset

/-- The last choice of whether to assert since the last reset; by default it is to assert. -/
def validateAfter (steps : List Step) : Bool :=
  Session.lastSetting Step.validate? true (sinceReset steps)

/-- The last failure policy chosen since the last reset; by default refusals are returned. -/
def policyAfter (steps : List Step) : FailurePolicy :=
  Session.lastSetting Step.policy? .propagate (sinceReset steps)

theorem isReset_of_mem_sinceReset {steps : List Step} {s : Step} (hs : s ∈ sinceReset steps) :
    s.isReset = false := by
  simpa using List.mem_rtakeWhile_imp hs

/-- No request but the one that sets whether to assert, and a reset, changes that. -/
theorem validateUnchecked_step (c : Codec) {s : Step} (hs : s.isReset = false) :
    (c.step s).2.validateUnchecked = s.validate?.getD c.validateUnchecked := by
  cases s with
  | reset => cases hs
  | _ => rfl

theorem onFailure_step (c : Codec) {s : Step} (hs : s.isReset = false) :
    (c.step s).2.onFailure = s.policy?.getD c.onFailure := by
  cases s with
  | reset => cases hs
  | _ => rfl

/-- Using a codec changes neither choice, setting one leaves the other, and a reset is the
only request that makes both. -/
theorem run_standard (steps : List Step) :
    (run standard steps).2 = ⟨validateAfter steps, policyAfter steps⟩ := by
  have hreset : ∀ c s, Step.isReset s = true → (step c s).2 = standard := by
    intro c s hs
    cases s with
    | reset => rfl
    | _ => cases hs
  have hbehind : ∀ s ∈ sinceReset steps, s.isReset = false := fun s hs =>
    isReset_of_mem_sinceReset hs
  rw [run, Session.run_after_reset hreset, ← sinceReset]
  ext1
  · exact Session.view_run (fun c s hs => c.validateUnchecked_step (hbehind s hs)) standard
  · exact Session.view_run (fun c s hs => c.onFailure_step (hbehind s hs)) standard

/-! ## What depends on a choice -/

/-- Requests whose answer depends on the choice of whether to assert: those that show it, and
the unchecked encoding of an address that has no reference. -/
def Step.ReadsValidate : Step → Prop
  | .reset => False
  | .setValidateUnchecked _ => True
  | .setFailurePolicy _ => True
  | .inspect => True
  | .encode _ => False
  | .encodeUnchecked a => ¬ a.Representable
  | .decode _ => False

/-- What a failure policy can make of the refusal of an address, whose diagnostic is given. -/
inductive Refusal (diagnostic : String) (a : Address) : Answer → Prop
  | propagated : Refusal diagnostic a (.encoded (.returned (.error ⟨a⟩) ""))
  | reported : Refusal diagnostic a (.encoded (.returned (.error ⟨a⟩) diagnostic))
  | aborted : Refusal diagnostic a (.encoded (.aborted diagnostic))

/-- Answers to a request that may differ in the failure policy.  Those that show it differ in
any way, those to the encoding of a refused address in what becomes of the refusal, and no
other answers at all. -/
def Step.AlikeButPolicy (diagnostic : Address → String) : Step → Answer → Answer → Prop
  | .encode a, x, y =>
    if a.Representable then x = y else Refusal (diagnostic a) a x ∧ Refusal (diagnostic a) a y
  | .setValidateUnchecked _, _, _ => True
  | .setFailurePolicy _, _, _ => True
  | .inspect, _, _ => True
  | _, x, y => x = y

/-- Whatever the policy, a refused address meets one of the three ends. -/
theorem refusal_encode (c : Codec) {a : Address} (ha : ¬ a.Representable) :
    Refusal (Diagnostic.text a) a (.encoded (c.encode a)) := by
  rw [c.encode_of_not_representable ha]
  cases c.onFailure with
  | propagate => exact .propagated
  | report => exact .reported
  | abort => exact .aborted

/-- The codec decides what becomes of a refusal, and not whether there is one. -/
theorem encode_of_returned (c : Codec) (a : Address) :
    ∀ value stderr, c.encode a = .returned value stderr → value = a.encode := by
  intro value stderr h
  by_cases ha : a.Representable
  · rw [c.encode_of_representable ha] at h
    rw [Address.encode_of_representable ha]
    cases h
    rfl
  · rw [c.encode_of_not_representable ha] at h
    rw [Address.encode_of_not_representable ha]
    cases hpolicy : c.onFailure with
    | propagate => rw [hpolicy] at h; cases h; rfl
    | report => rw [hpolicy] at h; cases h; rfl
    | abort => rw [hpolicy] at h; cases h

/-- An encoding ends the process for a refused address and one policy, and for nothing else. -/
theorem encode_aborted_iff (c : Codec) (a : Address) :
    (∃ stderr, c.encode a = .aborted stderr) ↔ ¬ a.Representable ∧ c.onFailure = .abort := by
  by_cases ha : a.Representable
  · simp [c.encode_of_representable ha, ha]
  · rw [c.encode_of_not_representable ha]
    cases c.onFailure with
    | propagate => simp
    | report => simp
    | abort => simp [ha]

theorem encode_congr {c c' : Codec} (h : c.onFailure = c'.onFailure) (a : Address) :
    c.encode a = c'.encode a := by
  unfold encode
  rw [h]

theorem encodeUnchecked_congr {c c' : Codec} (h : c.validateUnchecked = c'.validateUnchecked)
    (a : Address) : c.encodeUnchecked a = c'.encodeUnchecked a := by
  unfold encodeUnchecked
  rw [h]

/-- Whether a request leaves the choice of whether to assert alone. -/
def Step.keepsValidate (s : Step) : Bool := s.validate?.isNone

/-- Whether a request leaves the failure policy alone, or resets it with everything else. -/
def Step.keepsPolicy (s : Step) : Bool := s.policy?.isNone

/-- The failure policy is all that a request may see of requests that choose whether to assert. -/
theorem confines_validate :
    Session.Confines step Codec.onFailure Step.keepsValidate
      (fun s x y => s.ReadsValidate ∨ x = y) where
  hidden c s hs := by
    cases s with
    | setValidateUnchecked on => rfl
    | _ => cases hs
  next c c' s _ h := by
    cases s with
    | reset => rfl
    | setFailurePolicy policy => rfl
    | _ => exact h
  answer c c' s _ h := by
    cases s with
    | encode a =>
      refine .inr ?_
      simp only [step, encode_congr h]
    | encodeUnchecked a =>
      by_cases ha : a.Representable
      · refine .inr ?_
        simp only [step, encodeUnchecked_of_representable _ ha]
      · exact .inl ha
    | reset => exact .inr rfl
    | decode r => exact .inr rfl
    | _ => exact .inl trivial

/-- The choice of whether to assert is all that a request may see of requests that choose a
failure policy, apart from the refusals in which the policy shows. -/
theorem confines_policy :
    Session.Confines step Codec.validateUnchecked Step.keepsPolicy
      (Step.AlikeButPolicy Diagnostic.text) where
  hidden c s hs := by
    cases s with
    | setFailurePolicy policy => rfl
    | _ => cases hs
  next c c' s _ h := by
    cases s with
    | reset => rfl
    | setValidateUnchecked on => rfl
    | _ => exact h
  answer c c' s _ h := by
    cases s with
    | encode a =>
      simp only [Step.AlikeButPolicy, step]
      split
      · rename_i ha
        rw [c.encode_of_representable ha, c'.encode_of_representable ha]
      · rename_i ha
        exact ⟨c.refusal_encode ha, c'.refusal_encode ha⟩
    | encodeUnchecked a => exact congrArg Answer.encodedUnchecked (encodeUnchecked_congr h a)
    | reset => rfl
    | decode r => rfl
    | _ => exact trivial

/-! ## What is written -/

/-- The diagnostic that a request writes under a failure policy: that of an address that is to
be encoded, is refused, and is not just returned. -/
def Step.diagnostic (diagnostic : Address → String) (policy : FailurePolicy) : Step → String
  | .encode a => if a.Representable ∨ policy = .propagate then "" else diagnostic a
  | _ => ""

/-- What is told of a request whose assertion fails: one that is to encode, without a refusal,
an address that has no reference. -/
def Step.complaint (told : AssertionFailure → String) (validate : Bool) : Step → String
  | .encodeUnchecked a =>
    if a.Representable ∨ validate = false then "" else told (.unrepresentable ⟨a⟩)
  | _ => ""

/-- A request writes its diagnostic, or something is told of it, or neither. -/
theorem stderr_step (told : AssertionFailure → String) (c : Codec) (s : Step) :
    (c.step s).1.stderr told =
      s.diagnostic Diagnostic.text c.onFailure ++ s.complaint told c.validateUnchecked := by
  cases s with
  | encode a =>
    simp only [step, Answer.stderr, Step.diagnostic, Step.complaint, String.append_empty]
    by_cases ha : a.Representable
    · rw [c.encode_of_representable ha, if_pos (.inl ha)]
      rfl
    · rw [c.encode_of_not_representable ha]
      cases c.onFailure with
      | propagate => rw [if_pos (.inr rfl)]; rfl
      | report => rw [if_neg (by simp [ha])]; rfl
      | abort => rw [if_neg (by simp [ha])]; rfl
  | encodeUnchecked a =>
    simp only [step, Step.diagnostic, Step.complaint, String.empty_append]
    by_cases ha : a.Representable
    · rw [c.encodeUnchecked_of_representable ha, if_pos (.inl ha)]
      rfl
    · cases hvalidate : c.validateUnchecked with
      | true =>
        rw [encodeUnchecked_of_not_representable hvalidate ha, if_neg (by simp [ha])]
        rfl
      | false =>
        rw [if_pos (.inr rfl), encodeUnchecked, if_neg (by simp [hvalidate])]
        rfl
  | _ => rfl

/-- Everything on the standard error output after a session, request by request. -/
theorem written_run (told : Nat → AssertionFailure → String) (steps : List Step) :
    written told (run standard steps).1 =
      String.join (steps.mapIdx fun n s =>
        s.diagnostic Diagnostic.text (policyAfter (steps.take n)) ++
          s.complaint (told n) (validateAfter (steps.take n))) := by
  have hcodec : ∀ n, (Session.run step standard (steps.take n)).2 =
      ⟨validateAfter (steps.take n), policyAfter (steps.take n)⟩ := fun n => run_standard _
  rw [written, run, Session.mapIdx_answers fun n => stderr_step (told n)]
  simp only [hcodec]

/-! ## Processes -/

/-- An encoding that ends the process is the only request that does. -/
theorem endsProcess_step {c : Codec} {s : Step} (h : (c.step s).1.endsProcess = true) :
    ∃ a, s = .encode a ∧ ¬ a.Representable ∧ c.onFailure = .abort := by
  cases s with
  | encode a =>
    refine ⟨a, rfl, (c.encode_aborted_iff a).mp ?_⟩
    simp only [step] at h
    cases hencode : c.encode a with
    | returned value stderr => rw [hencode] at h; cases h
    | aborted stderr => exact ⟨stderr, rfl⟩
  | _ => cases h

/-- A process answers every request, or those up to the first encoding of an address that has
no reference while the policy is to abort. -/
theorem runInProcess_eq (steps : List Step) :
    (runInProcess standard steps = (run standard steps).1 ∧
      ∀ answer ∈ (run standard steps).1, answer.endsProcess = false) ∨
    ∃ before a after, steps = before ++ .encode a :: after ∧
      (∀ answer ∈ (run standard before).1, answer.endsProcess = false) ∧
      ¬ a.Representable ∧ policyAfter before = .abort ∧
      runInProcess standard steps = (run standard (before ++ [.encode a])).1 := by
  rcases Session.runUntil_eq_run Answer.endsProcess step standard steps with
    hall | ⟨before, s, after, hsteps, hgoes, hends, hrun⟩
  · exact .inl hall
  · obtain ⟨a, rfl, ha, habort⟩ := endsProcess_step hends
    rw [← run, run_standard] at habort
    exact .inr ⟨before, a, after, hsteps, hgoes, ha, habort, hrun⟩

/-! ## Whole sessions -/

/-- **The choices of a codec are independent, and its diagnostics are written once.**  Each
choice is the one that was made last since the last reset, or else the default.  Requests that
choose whether to assert may be put in, left out and changed, and no checked encoding and no
decoding changes; requests that choose a failure policy likewise, and nothing changes but what
becomes of the refusal of an address.  An encoding that returns gives what it would give
without a codec, and it ends the process just when the address has no reference and the
policy in force says so.

What stands on the standard error output in all is one diagnostic of two lines for each
refusal, in order, of which the policy in force wants it told, and besides only what the
process tells of each assertion that fails.  A process that an encoding ends has answered
the requests up to there as any session would, and so has written what that session writes. -/
theorem run_choices (steps : List Step) :
    let c := (run standard steps).2
    let diagnostic (a : Address) : String :=
      "fatal error: pointer " ++ a.text ++ " too big or misaligned.\n" ++
        "This can occur if static data is placed after the first 32GB of virtual address space.\n"
    (c.validateUnchecked = validateAfter steps ∧ c.onFailure = policyAfter steps) ∧
    (∀ others : List Step, steps.filter Step.keepsValidate = others.filter Step.keepsValidate →
      Session.Agree (fun s x y => s.ReadsValidate ∨ x = y)
        (Session.seen Step.keepsValidate (Session.transcript step standard steps))
        (Session.seen Step.keepsValidate (Session.transcript step standard others))) ∧
    (∀ others : List Step, steps.filter Step.keepsPolicy = others.filter Step.keepsPolicy →
      Session.Agree (Step.AlikeButPolicy diagnostic)
        (Session.seen Step.keepsPolicy (Session.transcript step standard steps))
        (Session.seen Step.keepsPolicy (Session.transcript step standard others))) ∧
    (∀ a : Address, ∃ outcome, c.step (.encode a) = (.encoded outcome, c) ∧
      (∀ value stderr, outcome = .returned value stderr → value = a.encode) ∧
      ((∃ stderr, outcome = .aborted stderr) ↔
        ¬ a.Representable ∧ policyAfter steps = .abort)) ∧
    (∀ told : Nat → AssertionFailure → String,
      written told (run standard steps).1 =
        String.join (steps.mapIdx fun n s =>
          s.diagnostic diagnostic (policyAfter (steps.take n)) ++
            s.complaint (told n) (validateAfter (steps.take n)))) ∧
    ((runInProcess standard steps = (run standard steps).1 ∧
        ∀ answer ∈ (run standard steps).1, answer.endsProcess = false) ∨
      ∃ before a after, steps = before ++ .encode a :: after ∧
        (∀ answer ∈ (run standard before).1, answer.endsProcess = false) ∧
        ¬ a.Representable ∧ policyAfter before = .abort ∧
        runInProcess standard steps = (run standard (before ++ [.encode a])).1) := by
  intro c diagnostic
  have hc : c = ⟨validateAfter steps, policyAfter steps⟩ := run_standard steps
  have hdiagnostic : Diagnostic.text = diagnostic := funext Diagnostic.text_eq
  rw [← hdiagnostic]
  refine ⟨⟨by rw [hc], by rw [hc]⟩, ?_, ?_, ?_, ?_, runInProcess_eq steps⟩
  · intro others hsame
    exact confines_validate.agree hsame rfl
  · intro others hsame
    exact confines_policy.agree hsame rfl
  · intro a
    refine ⟨c.encode a, rfl, c.encode_of_returned a, ?_⟩
    rw [c.encode_aborted_iff a, hc]
  · intro told
    exact written_run told steps

/-- Without its choice to assert, the session differs in the unchecked encoding of an address
between two multiples of eight; with its policy chosen too late and another one, in what
becomes of the refusal.  It tells the refusal once, and the process tells the assertion that
failed before. -/
theorem run_choices_of_report :
    let diagnostic (a : Address) : String :=
      "fatal error: pointer " ++ a.text ++ " too big or misaligned.\n" ++
        "This can occur if static data is placed after the first 32GB of virtual address space.\n"
    let steps : List Step :=
      [.encodeUnchecked ⟨13⟩, .setFailurePolicy .report, .encode ⟨5⟩,
        .setValidateUnchecked false, .encodeUnchecked ⟨13⟩]
    let fewer : List Step :=
      [.encodeUnchecked ⟨13⟩, .setFailurePolicy .report, .encode ⟨5⟩, .encodeUnchecked ⟨13⟩]
    let late : List Step :=
      [.encodeUnchecked ⟨13⟩, .encode ⟨5⟩, .setValidateUnchecked false,
        .setFailurePolicy .abort, .encodeUnchecked ⟨13⟩]
    steps.filter Step.keepsValidate = fewer.filter Step.keepsValidate ∧
      Session.Agree (fun s x y => s.ReadsValidate ∨ x = y)
        (Session.seen Step.keepsValidate (Session.transcript step standard steps))
        (Session.seen Step.keepsValidate (Session.transcript step standard fewer)) ∧
      steps.filter Step.keepsPolicy = late.filter Step.keepsPolicy ∧
      Session.Agree (Step.AlikeButPolicy diagnostic)
        (Session.seen Step.keepsPolicy (Session.transcript step standard steps))
        (Session.seen Step.keepsPolicy (Session.transcript step standard late)) ∧
      written (fun _ e => e.message ++ "\n") (run standard steps).1 =
        "pointer 0xd too big or misaligned\n" ++
          "fatal error: pointer 0x5 too big or misaligned.\n" ++
          "This can occur if static data is placed after the first 32GB of virtual address space.\n" := by
  intro diagnostic steps fewer late
  obtain ⟨-, hvalidate, hpolicy, -, hwritten, -⟩ := run_choices steps
  refine ⟨rfl, hvalidate fewer rfl, rfl, hpolicy late rfl, (hwritten _).trans ?_⟩
  decide +kernel

end CompressedRefs.Codec
