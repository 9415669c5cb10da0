import CompressedRefs.Proofs.Wire.Script
import CompressedRefs.Wire.Table

/-!
# Transfers do not look ahead

An entry of a script that no call took has no influence on what happened.  So the
end of a script may be replaced at will as long as a transfer stays in front of it,
and a fault put in the place of an entry shows whether that entry was taken.

## Main definitions

* `Local` — transfers that hand back the end of the script unseen.
* `Local.andThen` — the property is one of parts: it passes to transfers in a row.
-/

namespace CompressedRefs.Wire

/-- A transfer whose course depends on the entries that it takes and on no other. -/
structure Local {ε α : Type} (run : Script → Transfer ε α) : Prop where
  /-- What is left of a script is its end. -/
  suffix : ∀ script, (run script).script <:+ script
  /-- Entries that were not taken may be replaced by any others. -/
  resume : ∀ front tail rest, tail ≠ [] → (run (front ++ tail)).script = rest ++ tail →
    ∀ tail', run (front ++ tail') = { run (front ++ tail) with script := rest ++ tail' }

namespace Local

variable {ε ε' α β : Type} {run : Script → Transfer ε α}

theorem pure (a : α) : Local (Transfer.pure a : Script → Transfer ε α) where
  suffix script := List.suffix_refl script
  resume := by
    intro front tail rest _ h tail'
    rw [Transfer.script_pure] at h
    rw [List.append_cancel_right h]
    rfl

theorem fail (e : ε) : Local (Transfer.fail e : Script → Transfer ε α) where
  suffix script := List.suffix_refl script
  resume := by
    intro front tail rest _ h tail'
    rw [Transfer.script_fail] at h
    rw [List.append_cancel_right h]
    rfl

/-- An entry put in the place of one that was taken is taken. -/
theorem script_take_append (h : Local run) {script : Script} {i : Nat}
    (hi : i + (run script).script.length < script.length) (c : Call) :
    (run (script.take i ++ [c])).script = [] := by
  rcases List.eq_nil_or_concat (run (script.take i ++ [c])).script with hnil | ⟨rest, d, hrest⟩
  · exact hnil
  · rw [List.concat_eq_append] at hrest
    obtain ⟨used, hused⟩ := h.suffix (script.take i ++ [c])
    rw [hrest, ← List.append_assoc] at hused
    obtain ⟨-, hd⟩ := List.append_inj' hused rfl
    -- Nothing behind the `i`th entry was looked at, so the whole script would be left from there.
    have hresume := h.resume (script.take i) [c] rest (by simp) (hrest.trans (by rw [hd]))
      (script.drop i)
    rw [List.take_append_drop] at hresume
    simp only [hresume, List.length_append, List.length_drop] at hi
    omega

theorem mapResult (h : Local run) (f : Except ε α → Except ε' β) :
    Local fun script => (run script).mapResult f where
  suffix := h.suffix
  resume := by
    intro front tail rest hne hs tail'
    simp only [h.resume front tail rest hne hs tail', Transfer.mapResult]

/-- The continuation works on the end that the first transfer handed back, so the
entries in front of it have been taken either by the one or by the other. -/
theorem andThen (h : Local run) {next : α → Script → Transfer ε β} (hnext : ∀ a, Local (next a)) :
    Local fun script => (run script).andThen next where
  suffix := by
    intro script
    cases hr : (run script).result with
    | error e =>
      rw [Transfer.andThen_of_error hr]
      exact h.suffix script
    | ok a =>
      rw [Transfer.andThen_of_ok hr]
      exact ((hnext a).suffix _).trans (h.suffix script)
  resume := by
    intro front tail rest hne hs tail'
    cases hr : (run (front ++ tail)).result with
    | error e =>
      rw [Transfer.andThen_of_error hr] at hs
      simp only [h.resume front tail rest hne hs tail', Transfer.andThen, hr]
    | ok a =>
      rw [Transfer.andThen_of_ok hr] at hs
      obtain ⟨taken, htaken⟩ := (hnext a).suffix (run (front ++ tail)).script
      have hmid : (run (front ++ tail)).script = (taken ++ rest) ++ tail := by
        rw [List.append_assoc, ← hs, htaken]
      have hfirst := h.resume front tail (taken ++ rest) hne hmid tail'
      rw [hmid] at hs
      have hsecond := (hnext a).resume (taken ++ rest) tail rest hne hs tail'
      simp only [hfirst, Transfer.andThen, hr, hmid, hsecond]

end Local

theorem ByCalls.suffix {σ ε α : Type} {run : σ → Script → Transfer ε α} (h : ByCalls run) (s : σ)
    (script : Script) : (run s script).script <:+ script := by
  induction script generalizing s with
  | nil => simp only [h.script_nil, List.suffix_refl]
  | cons c script ih =>
    rcases h.cases s with ⟨r, hr⟩ | ⟨-, hcall⟩
    · simp only [hr, List.suffix_refl]
    · rcases hcall c with ⟨r, hr⟩ | ⟨s', moved, hs'⟩
      · rw [hr]
        exact List.suffix_cons c script
      · rw [hs']
        exact (ih s').trans (List.suffix_cons c script)

/-- Going on call by call is enough: only the call that takes an entry looks at it. -/
theorem ByCalls.toLocal {σ ε α : Type} {run : σ → Script → Transfer ε α} (h : ByCalls run)
    (s : σ) : Local (run s) where
  suffix := h.suffix s
  resume := by
    intro front
    induction front generalizing s with
    | nil =>
      intro tail rest hne hs tail'
      obtain ⟨c, t, rfl⟩ := List.exists_cons_of_ne_nil hne
      -- A call would have taken `c`, and could not have handed it back.
      have taken : ¬ (run s (c :: t)).script <:+ t := by
        intro hsuffix
        have hle := hsuffix.length_le
        rw [List.nil_append] at hs
        simp only [hs, List.length_append, List.length_cons] at hle
        omega
      rcases h.cases s with ⟨r, hr⟩ | ⟨-, hcall⟩
      · rw [hr] at hs
        obtain rfl : [] = rest := List.append_cancel_right hs
        rw [List.nil_append, List.nil_append, hr, hr]
      · rcases hcall c with ⟨r, hr⟩ | ⟨s', moved, hs'⟩
        · exact absurd (hr t ▸ List.suffix_refl t) taken
        · exact absurd (hs' t ▸ h.suffix s' t) taken
    | cons c front ih =>
      intro tail rest hne hs tail'
      simp only [List.cons_append] at hs ⊢
      rcases h.cases s with ⟨r, hr⟩ | ⟨-, hcall⟩
      · rw [hr] at hs
        obtain rfl : c :: front = rest := List.append_cancel_right hs
        rw [hr, hr]
        rfl
      · rcases hcall c with ⟨r, hr⟩ | ⟨s', moved, hs'⟩
        · rw [hr] at hs
          rw [hr, hr, List.append_cancel_right hs]
        · rw [hs'] at hs
          rw [hs', hs', ih s' tail rest hne hs tail']
          rfl

/-! ## The transfers of this library -/

theorem local_writeAll (bytes : List UInt8) : Local (writeAll bytes) := byCalls_writeAll.toLocal bytes

theorem local_writeRef (order : ByteOrder) (r : Ref) : Local (writeRef order r) :=
  (local_writeAll _).mapResult _

/-- The course of a table follows the list: what a refused address does, it does
without a call, and every other address is one reference. -/
theorem local_writeAddressesFrom (order : ByteOrder) (index : Nat) (as : List Address) :
    Local (writeAddressesFrom order index as) := by
  induction as generalizing index with
  | nil => exact .pure ()
  | cons a as ih =>
    by_cases ha : a.Representable
    · have heq := funext (writeAddressesFrom_cons_of_representable order index ha as)
      rw [heq]
      exact (local_writeRef order a.truncate).andThen fun _ => ih (index + 1)
    · have heq := funext (writeAddressesFrom_cons_of_not_representable order index ha as)
      rw [heq]
      exact .fail _

end CompressedRefs.Wire
