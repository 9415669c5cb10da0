/-!
# Sessions

A session answers requests one after another, each in the state that the one
before it left.  What a single request does is a step; this module only threads
the state through a list of them.

## Main definitions

* `Session.run` — the answers to a list of requests, and the state at the end.
* `Session.runUntil` — the answers up to the first that ends the session.
* `Session.run_append`, `Session.run_invariant` — sessions in two parts, and what every step keeps.
* `Session.run_simulation` — sessions over different states that cannot be told apart.
-/

namespace CompressedRefs.Session

variable {σ ι ω : Type}

/-- The answers to requests made in turn, and the state that is left. -/
def run (step : σ → ι → ω × σ) (s : σ) : List ι → List ω × σ
  | [] => ([], s)
  | i :: is =>
    let first := step s i
    let rest := run step first.2 is
    (first.1 :: rest.1, rest.2)

@[simp] theorem run_nil (step : σ → ι → ω × σ) (s : σ) : run step s [] = ([], s) := rfl

@[simp] theorem run_cons (step : σ → ι → ω × σ) (s : σ) (i : ι) (is : List ι) :
    run step s (i :: is) =
      ((step s i).1 :: (run step (step s i).2 is).1, (run step (step s i).2 is).2) := rfl

theorem run_append (step : σ → ι → ω × σ) (s : σ) (is js : List ι) :
    run step s (is ++ js) =
      ((run step s is).1 ++ (run step (run step s is).2 js).1,
        (run step (run step s is).2 js).2) := by
  induction is generalizing s with
  | nil => rfl
  | cons i is ih => simp [ih]

@[simp] theorem length_run (step : σ → ι → ω × σ) (s : σ) (is : List ι) :
    (run step s is).1.length = is.length := by
  induction is generalizing s with
  | nil => rfl
  | cons i is ih => simp [ih]

/-- The answers to requests made in turn, up to the first answer that ends the session. -/
def runUntil (ends : ω → Bool) (step : σ → ι → ω × σ) (s : σ) : List ι → List ω
  | [] => []
  | i :: is =>
    let first := step s i
    if ends first.1 then [first.1] else first.1 :: runUntil ends step first.2 is

/-- Either no answer ends a session, or the first one that does is its last, and the session is
one over the requests up to there. -/
theorem runUntil_eq_run (ends : ω → Bool) (step : σ → ι → ω × σ) (s : σ) (is : List ι) :
    (runUntil ends step s is = (run step s is).1 ∧ ∀ o ∈ (run step s is).1, ends o = false) ∨
    ∃ before i after, is = before ++ i :: after ∧
      (∀ o ∈ (run step s before).1, ends o = false) ∧
      ends (step (run step s before).2 i).1 = true ∧
      runUntil ends step s is = (run step s (before ++ [i])).1 := by
  induction is generalizing s with
  | nil => exact .inl ⟨rfl, by simp⟩
  | cons i is ih =>
    cases hi : ends (step s i).1 with
    | true =>
      refine .inr ⟨[], i, is, rfl, by simp, hi, ?_⟩
      simp only [runUntil, hi, if_true]
      rfl
    | false =>
      have hgoes : runUntil ends step s (i :: is) =
          (step s i).1 :: runUntil ends step (step s i).2 is := by
        simp only [runUntil, hi, Bool.false_eq_true, if_false]
      rw [hgoes]
      rcases ih (step s i).2 with ⟨hrun, hnone⟩ | ⟨before, j, after, rfl, hnone, hends, hrun⟩
      · refine .inl ⟨by rw [hrun, run_cons], ?_⟩
        rw [run_cons, List.forall_mem_cons]
        exact ⟨hi, hnone⟩
      · refine .inr ⟨i :: before, j, after, rfl, ?_, hends, by rw [hrun]; rfl⟩
        rw [run_cons, List.forall_mem_cons]
        exact ⟨hi, hnone⟩

/-- What every step keeps holds at the end of a session. -/
theorem run_invariant {P : σ → Prop} {step : σ → ι → ω × σ}
    (hstep : ∀ s i, P s → P (step s i).2) {s : σ} (hs : P s) (is : List ι) :
    P (run step s is).2 := by
  induction is generalizing s with
  | nil => exact hs
  | cons i is ih => exact ih (hstep s i hs)

/-- Two sessions whose steps answer alike as long as their states are related give
the same answers, and states that are still related. -/
theorem run_simulation {τ : Type} {R : σ → τ → Prop} {step : σ → ι → ω × σ} {step' : τ → ι → ω × τ}
    (hstep : ∀ s t i, R s t → (step s i).1 = (step' t i).1 ∧ R (step s i).2 (step' t i).2)
    {s : σ} {t : τ} (h : R s t) (is : List ι) :
    (run step s is).1 = (run step' t is).1 ∧ R (run step s is).2 (run step' t is).2 := by
  induction is generalizing s t with
  | nil => exact ⟨rfl, h⟩
  | cons i is ih =>
    obtain ⟨hanswer, hnext⟩ := hstep s t i h
    obtain ⟨hanswers, hlast⟩ := ih hnext
    refine ⟨?_, hlast⟩
    rw [run_cons, run_cons, hanswer, hanswers]

end CompressedRefs.Session
