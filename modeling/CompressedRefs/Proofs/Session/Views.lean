import CompressedRefs.Session
import Mathlib.Data.List.DropRight
import Mathlib.Data.List.Forall2

/-!
# What a session lets through

An answer depends on the requests in front of it through the state only, and often through
a part of the state, a view.  A view that requests set is whatever was set last.  Requests
that leave a view alone cannot be noticed by those whose answers depend on it alone: they
may be put in, left out and changed at will.

## Main definitions

* `Session.lastSetting` — what was set last.
* `Session.transcript`, `Session.Agree` — requests with their answers, and how two such lists compare.
* `Session.Confines` — what single steps must do for hidden requests to stay unnoticed.

## Main statements

* `Session.view_run` — a view that requests set is what was set last.
* `Session.run_after_reset` — the requests in front of the last reset are forgotten.
* `Session.Confines.agree` — hidden requests stay unnoticed over whole sessions.
-/

namespace CompressedRefs.Session

variable {σ ι ω α : Type} {step : σ → ι → ω × σ}

/-! ## Settings -/

/-- What requests set last, or `start` when none of them sets anything. -/
def lastSetting (setting : ι → Option α) (start : α) (is : List ι) : α :=
  (is.filterMap setting).getLast?.getD start

/-- A request that sets something makes whatever was set before it unimportant. -/
theorem lastSetting_cons (setting : ι → Option α) (start : α) (i : ι) (is : List ι) :
    lastSetting setting start (i :: is) = lastSetting setting ((setting i).getD start) is := by
  unfold lastSetting
  cases h : setting i with
  | none => rw [List.filterMap_cons_none h]; rfl
  | some a => rw [List.filterMap_cons_some h, List.getLast?_cons]; rfl

/-- A view of the state that requests set and that nothing else changes. -/
theorem view_run {view : σ → α} {setting : ι → Option α} {is : List ι}
    (hset : ∀ s, ∀ i ∈ is, view (step s i).2 = (setting i).getD (view s)) (s : σ) :
    view (run step s is).2 = lastSetting setting (view s) is := by
  induction is generalizing s with
  | nil => rfl
  | cons i is ih =>
    have hrest := ih (fun t j hj => hset t j (List.mem_cons_of_mem i hj)) (step s i).2
    rw [run_cons, hrest, hset s i List.mem_cons_self, lastSetting_cons]

/-- A request that resets forgets all requests in front of it. -/
theorem run_after_reset {resets : ι → Bool} {start : σ}
    (hreset : ∀ s i, resets i = true → (step s i).2 = start) (is : List ι) :
    (run step start is).2 = (run step start (is.rtakeWhile fun i => !resets i)).2 := by
  induction is using List.reverseRecOn with
  | nil => rfl
  | append_singleton is i ih =>
    cases hi : resets i with
    | true =>
      rw [List.rtakeWhile_concat_neg _ _ _ (by simp [hi]), run_append]
      exact hreset _ i hi
    | false =>
      rw [List.rtakeWhile_concat_pos _ _ _ (by simp [hi]), run_append, run_append, ih]

/-! ## Answers by place -/

/-- The answer at a place is that of a single step, in the state that the requests in front
of the place leave. -/
theorem answers_eq_mapIdx (step : σ → ι → ω × σ) (s : σ) (is : List ι) :
    (run step s is).1 = is.mapIdx fun n i => (step (run step s (is.take n)).2 i).1 := by
  induction is generalizing s with
  | nil => rfl
  | cons i is ih =>
    rw [run_cons, List.mapIdx_cons, ih]
    rfl

/-- The answer to a request does not depend on those behind it. -/
theorem answer_at (step : σ → ι → ω × σ) (s : σ) (is : List ι) (i : ι) (js : List ι) :
    (run step s (is ++ i :: js)).1[is.length]? = some (step (run step s is).2 i).1 := by
  have hlength : is.length = (run step s is).1.length := (length_run step s is).symm
  rw [run_append, hlength, List.getElem?_append_right (Nat.le_refl _), Nat.sub_self, run_cons,
    List.getElem?_cons_zero]

/-- What is made of the answers of single steps, for a whole session. -/
theorem mapIdx_answers {β : Type} {f : Nat → ω → β} {g : Nat → σ → ι → β}
    (hstep : ∀ n s i, f n (step s i).1 = g n s i) (s : σ) (is : List ι) :
    (run step s is).1.mapIdx f = is.mapIdx fun n i => g n (run step s (is.take n)).2 i := by
  rw [answers_eq_mapIdx, List.mapIdx_mapIdx]
  congr 1
  funext n i
  exact hstep n _ i

theorem forall_mem_answers {P : ω → Prop} (hstep : ∀ s i, P (step s i).1) (s : σ) (is : List ι) :
    ∀ o ∈ (run step s is).1, P o := by
  intro o ho
  rw [answers_eq_mapIdx] at ho
  obtain ⟨n, hn, rfl⟩ := List.mem_mapIdx.mp ho
  exact hstep _ _

/-! ## Requests that stay unnoticed -/

/-- Requests with their answers. -/
def transcript (step : σ → ι → ω × σ) (s : σ) (is : List ι) : List (ι × ω) :=
  is.zip (run step s is).1

theorem transcript_cons (step : σ → ι → ω × σ) (s : σ) (i : ι) (is : List ι) :
    transcript step s (i :: is) = (i, (step s i).1) :: transcript step (step s i).2 is := rfl

theorem transcript_append (step : σ → ι → ω × σ) (s : σ) (is js : List ι) :
    transcript step s (is ++ js) =
      transcript step s is ++ transcript step (run step s is).2 js := by
  rw [transcript, run_append, List.zip_append (length_run step s is).symm]
  rfl

/-- The same requests in the same order, with answers that are alike. -/
def Agree (alike : ι → ω → ω → Prop) (xs ys : List (ι × ω)) : Prop :=
  List.Forall₂ (fun x y => x.1 = y.1 ∧ alike x.1 x.2 y.2) xs ys

/-- The exchanges of a transcript whose requests are visible. -/
def seen (visible : ι → Bool) (xs : List (ι × ω)) : List (ι × ω) := xs.filter fun x => visible x.1

theorem seen_transcript_of_hidden {visible : ι → Bool} (step : σ → ι → ω × σ) (s : σ)
    {is : List ι} (his : ∀ i ∈ is, ¬ visible i = true) :
    seen visible (transcript step s is) = [] := by
  rw [seen, List.filter_eq_nil_iff]
  intro x hx
  exact his x.1 (List.of_mem_zip hx).1

/-- The first visible request, behind some hidden ones. -/
theorem seen_transcript_of_visible {visible : ι → Bool} (step : σ → ι → ω × σ) (s : σ)
    {front : List ι} (hfront : ∀ i ∈ front, ¬ visible i = true) {i : ι} (hi : visible i = true)
    (is : List ι) :
    seen visible (transcript step s (front ++ i :: is)) =
      (i, (step (run step s front).2 i).1) ::
        seen visible (transcript step (step (run step s front).2 i).2 is) := by
  rw [transcript_append, seen, List.filter_append, ← seen, seen_transcript_of_hidden step s hfront,
    List.nil_append, transcript_cons]
  exact List.filter_cons_of_pos hi

/-- A hidden request leaves the view alone.  A visible one has, in states of the same view,
answers that are alike, and leaves states of the same view. -/
structure Confines (step : σ → ι → ω × σ) (view : σ → α) (visible : ι → Bool)
    (alike : ι → ω → ω → Prop) : Prop where
  hidden : ∀ s i, visible i = false → view (step s i).2 = view s
  next : ∀ s t i, visible i = true → view s = view t → view (step s i).2 = view (step t i).2
  answer : ∀ s t i, visible i = true → view s = view t → alike i (step s i).1 (step t i).1

namespace Confines

variable {view : σ → α} {visible : ι → Bool} {alike : ι → ω → ω → Prop}

theorem view_run_of_hidden (h : Confines step view visible alike) (s : σ) {is : List ι}
    (his : ∀ i ∈ is, ¬ visible i = true) : view (run step s is).2 = view s := by
  induction is generalizing s with
  | nil => rfl
  | cons i is ih =>
    have hi : visible i = false := by simpa using his i List.mem_cons_self
    exact (ih _ fun j hj => his j (List.mem_cons_of_mem i hj)).trans (h.hidden s i hi)

/-- Requests that differ in hidden ones only, in states of the same view.  The induction is
on the visible requests, which both have; each is met in a state that only hidden requests
have changed since the one before. -/
theorem agree (h : Confines step view visible alike) {is js : List ι}
    (hsame : is.filter visible = js.filter visible) {s t : σ} (hst : view s = view t) :
    Agree alike (seen visible (transcript step s is)) (seen visible (transcript step t js)) := by
  generalize hrest : js.filter visible = rest at hsame
  induction rest generalizing is js s t with
  | nil =>
    rw [seen_transcript_of_hidden step s (List.filter_eq_nil_iff.mp hsame),
      seen_transcript_of_hidden step t (List.filter_eq_nil_iff.mp hrest)]
    exact .nil
  | cons i rest ih =>
    obtain ⟨front, is', rfl, hfront, hi, his⟩ := List.filter_eq_cons_iff.mp hsame
    obtain ⟨front', js', rfl, hfront', -, hjs⟩ := List.filter_eq_cons_iff.mp hrest
    have hmeet : view (run step s front).2 = view (run step t front').2 := by
      rw [h.view_run_of_hidden s hfront, h.view_run_of_hidden t hfront', hst]
    have hnext := ih (h.next _ _ i hi hmeet) hjs his
    rw [seen_transcript_of_visible step s hfront hi, seen_transcript_of_visible step t hfront' hi]
    exact .cons ⟨rfl, h.answer _ _ i hi hmeet⟩ hnext

end Confines

end CompressedRefs.Session
