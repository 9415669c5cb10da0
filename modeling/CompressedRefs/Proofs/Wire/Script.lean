import CompressedRefs.Wire.Transfer

/-!
# Which entries of a script a transfer takes

A transfer survives a call that moves something and a call that is interrupted.
The first other entry that it takes ends it, with the error that the entry names.
So a script falls into harmless entries, perhaps one that ended the transfer, and
entries that no call took.  Reading may also end where the input does, which is
no fault of the script.

## Main definitions

* `Call.Harmless`, `Call.Ends` — the entries that a transfer survives, and those that end it.
* `Harmless`, `Passes`, `Stops` — scripts of harmless entries, and the two ways through a script.
* `ByCalls` — transfers that take one entry after another.
* `ReadingEnds` — the two ways in which reading fails.
-/

namespace CompressedRefs.Wire

/-- A call that a transfer survives: it moves something, or is worth repeating. -/
def Call.Harmless : Call → Prop
  | upTo n => 0 < n
  | fail e => e.isInterrupted = true

instance : DecidablePred Call.Harmless
  | .upTo n => inferInstanceAs (Decidable (0 < n))
  | .fail e => inferInstanceAs (Decidable (e.isInterrupted = true))

/-- A call that ends a transfer with the error `e`; one that moves nothing ends
it with the error `zero`. -/
def Call.Ends (zero e : IoError) : Call → Prop
  | upTo n => n = 0 ∧ e = zero
  | fail e' => e'.isInterrupted = false ∧ e = e'

theorem Call.ends_upTo_zero (zero : IoError) : (Call.upTo 0).Ends zero zero := ⟨rfl, rfl⟩

theorem Call.ends_fail {e : IoError} (h : ¬ e.isInterrupted = true) (zero : IoError) :
    (Call.fail e).Ends zero e := ⟨by simpa using h, rfl⟩

theorem Call.Ends.not_harmless {zero e : IoError} {c : Call} (h : c.Ends zero e) :
    ¬ c.Harmless := by
  intro hc
  cases c with
  | upTo n => exact absurd h.1 (Nat.ne_of_gt hc)
  | fail e' => exact absurd hc (by simp [Harmless, h.1])

/-- A script none of whose entries ends a transfer. -/
def Harmless (script : Script) : Prop := ∀ c ∈ script, c.Harmless

instance (script : Script) : Decidable (Harmless script) :=
  inferInstanceAs (Decidable (∀ c ∈ script, c.Harmless))

theorem harmless_nil : Harmless [] := by
  intro c hc
  cases hc

theorem Harmless.cons {c : Call} {script : Script} (hc : c.Harmless) (h : Harmless script) :
    Harmless (c :: script) := by
  intro d hd
  rcases List.mem_cons.mp hd with rfl | hd
  · exact hc
  · exact h d hd

theorem Harmless.append {s t : Script} (hs : Harmless s) (ht : Harmless t) : Harmless (s ++ t) := by
  intro c hc
  rcases List.mem_append.mp hc with hc | hc
  · exact hs c hc
  · exact ht c hc

/-- Harmless entries of `script` were taken, and `rest` is what they leave. -/
def Passes (script rest : Script) : Prop := ∃ used, Harmless used ∧ script = used ++ rest

/-- Harmless entries of `script` were taken and then one that ended the transfer
with the error `e`; `rest` is what they leave. -/
def Stops (zero : IoError) (script : Script) (e : IoError) (rest : Script) : Prop :=
  ∃ used last, Harmless used ∧ last.Ends zero e ∧ script = used ++ last :: rest

theorem Passes.refl (script : Script) : Passes script script := ⟨[], harmless_nil, rfl⟩

theorem Passes.cons {c : Call} {script rest : Script} (hc : c.Harmless) (h : Passes script rest) :
    Passes (c :: script) rest := by
  rcases h with ⟨used, hused, rfl⟩
  exact ⟨c :: used, hused.cons hc, rfl⟩

theorem Passes.trans {s t u : Script} (hst : Passes s t) (htu : Passes t u) : Passes s u := by
  rcases hst with ⟨used, hused, rfl⟩
  rcases htu with ⟨used', hused', rfl⟩
  exact ⟨used ++ used', hused.append hused', (List.append_assoc ..).symm⟩

/-- Harmless calls in front of a stop change nothing about it. -/
theorem Passes.stops {zero e : IoError} {s t u : Script} (hst : Passes s t)
    (htu : Stops zero t e u) : Stops zero s e u := by
  rcases hst with ⟨used, hused, rfl⟩
  rcases htu with ⟨used', last, hused', hlast, rfl⟩
  exact ⟨used ++ used', last, hused.append hused', hlast, (List.append_assoc ..).symm⟩

theorem Passes.suffix {script rest : Script} (h : Passes script rest) : rest <:+ script := by
  rcases h with ⟨used, _, rfl⟩
  exact List.suffix_append used rest

theorem Passes.harmless {script rest : Script} (h : Passes script rest) (hs : Harmless script) :
    Harmless rest := by
  intro c hc
  exact hs c (h.suffix.subset hc)

theorem Passes.harmless_of_nil {script : Script} (h : Passes script []) : Harmless script := by
  rcases h with ⟨used, hused, rfl⟩
  simpa using hused

theorem Stops.of_ends {zero e : IoError} {c : Call} (h : c.Ends zero e) (script : Script) :
    Stops zero (c :: script) e script := ⟨[], c, harmless_nil, h, rfl⟩

theorem Stops.cons {zero e : IoError} {c : Call} {script rest : Script} (hc : c.Harmless)
    (h : Stops zero script e rest) : Stops zero (c :: script) e rest :=
  ((Passes.refl script).cons hc).stops h

theorem Stops.not_harmless {zero e : IoError} {script rest : Script}
    (h : Stops zero script e rest) : ¬ Harmless script := by
  rcases h with ⟨used, last, _, hlast, rfl⟩
  intro hs
  exact hlast.not_harmless (hs last (by simp))

/-- When nothing is left of the script, its last call is the one that stopped the transfer. -/
theorem Stops.ends_of_nil {zero e : IoError} {script : Script} {c : Call}
    (h : Stops zero (script ++ [c]) e []) : c.Ends zero e := by
  rcases h with ⟨used, last, _, hlast, hscript⟩
  obtain ⟨-, hc⟩ := List.append_inj' hscript rfl
  rw [List.singleton_inj] at hc
  exact hc ▸ hlast

/-! ## One call at a time -/

/-- A transfer, by what it has left to do, that goes on call by call.  When it is
finished it leaves the script alone; otherwise its next call takes one entry and
ends it or changes what is left to do, and an interrupted call does neither. -/
structure ByCalls {σ ε α : Type} (run : σ → Script → Transfer ε α) : Prop where
  script_nil : ∀ s, (run s []).script = []
  cases : ∀ s, (∃ r, ∀ script, run s script = ⟨r, [], script, 0⟩) ∨
    (∀ e, e.isInterrupted = true → ∀ script, run s (.fail e :: script) = (run s script).after []) ∧
      ∀ c, (∃ r, ∀ script, run s (c :: script) = ⟨r, [], script, 1⟩) ∨
        ∃ s' moved, ∀ script, run s (c :: script) = (run s' script).after moved

/-- Writing looks at one entry of the script for each call, and at no more. -/
theorem byCalls_writeAll : ByCalls writeAll where
  script_nil := by
    intro bytes
    cases bytes <;> rfl
  cases := by
    intro bytes
    rcases bytes with _ | ⟨b, bs⟩
    · exact .inl ⟨.ok (), writeAll_nil⟩
    refine .inr ⟨?_, ?_⟩
    · intro e he script
      simp [writeAll, he]
    · intro c
      rcases c with n | e
      · by_cases hn : n = 0
        · exact .inl ⟨.error .writeZero, by simp [writeAll, hn]⟩
        · exact .inr ⟨(b :: bs).drop n, (b :: bs).take n, by simp [writeAll, hn]⟩
      · by_cases he : e.isInterrupted = true
        · exact .inr ⟨b :: bs, [], by simp [writeAll, he]⟩
        · exact .inl ⟨.error e, by simp [writeAll, he]⟩

theorem byCalls_readExact : ByCalls fun s : Nat × List UInt8 => readExact s.1 s.2 where
  script_nil := by
    rintro ⟨n, unread⟩
    cases n with
    | zero => rfl
    | succ n =>
      simp only [readExact]
      split <;> rfl
  cases := by
    rintro ⟨_ | n, unread⟩
    · exact .inl ⟨.ok (), readExact_zero unread⟩
    refine .inr ⟨?_, ?_⟩
    · intro e he script
      simp [readExact, he]
    · intro c
      rcases c with m | e
      · let got := unread.take (min m (n + 1))
        by_cases hgot : got.isEmpty = true
        · exact .inl ⟨.error .unexpectedEnd, by intro script; simp only [readExact, got, hgot, if_true]⟩
        · refine .inr ⟨(n + 1 - got.length, unread.drop got.length), got, ?_⟩
          intro script
          simp only [readExact, got, hgot, Bool.false_eq_true, if_false]
      · by_cases he : e.isInterrupted = true
        · exact .inr ⟨(n + 1, unread), [], by simp [readExact, he]⟩
        · exact .inl ⟨.error e, by simp [readExact, he]⟩

/-! ## Writing -/

/-- What succeeded has moved all its bytes, and met harmless calls only. -/
theorem writeAll_of_ok {bytes : List UInt8} {script : Script}
    (h : (writeAll bytes script).result = .ok ()) :
    (writeAll bytes script).moved = bytes ∧ Passes script (writeAll bytes script).script := by
  have hmoved := writeAll_moved bytes script
  rw [h] at hmoved
  refine ⟨hmoved, ?_⟩
  clear hmoved
  fun_induction writeAll bytes script with
  | case1 script => exact .refl script
  | case2 b bs => exact .refl []
  | case3 b bs e script he ih => exact (ih h).cons he
  | case4 b bs e script he => cases h
  | case5 b bs script => cases h
  | case6 b bs n script hn ih => exact (ih h).cons (Nat.pos_of_ne_zero hn)

/-- What failed has moved a proper front of its bytes, and the last entry that it took is to
blame. -/
theorem writeAll_of_error {bytes : List UInt8} {script : Script} {e : IoError}
    (h : (writeAll bytes script).result = .error e) :
    (∃ b rest, bytes = (writeAll bytes script).moved ++ b :: rest) ∧
      Stops .writeZero script e (writeAll bytes script).script := by
  have hmoved := writeAll_moved bytes script
  rw [h] at hmoved
  refine ⟨hmoved, ?_⟩
  clear hmoved
  fun_induction writeAll bytes script with
  | case1 script => cases h
  | case2 b bs => cases h
  | case3 b bs e' script he ih => exact (ih h).cons he
  | case4 b bs e' script he =>
    cases h
    exact .of_ends (Call.ends_fail he _) script
  | case5 b bs script =>
    cases h
    exact .of_ends (Call.ends_upTo_zero _) script
  | case6 b bs n script hn ih => exact (ih h).cons (Nat.pos_of_ne_zero hn)

theorem writeAll_harmless (bytes : List UInt8) {script : Script} (hs : Harmless script) :
    (writeAll bytes script).result = .ok () := by
  cases h : (writeAll bytes script).result with
  | ok u => rfl
  | error e => exact absurd hs (writeAll_of_error h).2.not_harmless

/-! ## Reading -/

/-- What succeeded has moved as many bytes as it was to, and met harmless calls only. -/
theorem readExact_of_ok {n : Nat} {unread : List UInt8} {script : Script}
    (h : (readExact n unread script).result = .ok ()) :
    n ≤ unread.length ∧ (readExact n unread script).moved = unread.take n ∧
      Passes script (readExact n unread script).script := by
  have hmoved := readExact_moved n unread script
  rw [h] at hmoved
  refine ⟨hmoved.1, hmoved.2, ?_⟩
  clear hmoved
  fun_induction readExact n unread script with
  | case1 unread script => exact .refl script
  | case2 n unread got hgot => exact .refl []
  | case3 n unread got hgot => cases h
  | case4 n unread e script he ih => exact (ih h).cons he
  | case5 n unread e script he => cases h
  | case6 n unread m script got hgot => cases h
  | case7 n unread m script got hgot ih =>
    refine (ih h).cons (Nat.pos_of_ne_zero ?_)
    rintro rfl
    simp [got] at hgot

/-- Reading ended with the error `e` when it had moved the bytes `moved`: an entry of
the script ended it, or a call found the input at its end. -/
def ReadingEnds (unread : List UInt8) (script : Script) (e : IoError) (moved : List UInt8)
    (rest : Script) : Prop :=
  Stops .unexpectedEnd script e rest ∨
    e = .unexpectedEnd ∧ moved = unread ∧ Passes script rest

theorem readingEnds_readExact {n : Nat} {unread : List UInt8} {script : Script} {e : IoError}
    (h : (readExact n unread script).result = .error e) :
    ReadingEnds unread script e (readExact n unread script).moved
      (readExact n unread script).script := by
  fun_induction readExact n unread script with
  | case1 unread script => cases h
  | case2 n unread got hgot => cases h
  | case3 n unread got hgot =>
    cases h
    have hlen : got.length = min (n + 1) unread.length := List.length_take
    exact .inr ⟨rfl, List.take_of_length_le (by omega), .refl []⟩
  | case4 n unread e' script he ih =>
    rcases ih h with hstop | ⟨rfl, hmoved, hpass⟩
    · exact .inl (hstop.cons he)
    · exact .inr ⟨rfl, hmoved, hpass.cons he⟩
  | case5 n unread e' script he =>
    cases h
    exact .inl (.of_ends (Call.ends_fail he _) script)
  | case6 n unread m script got hgot =>
    cases h
    by_cases hm : m = 0
    · subst hm
      exact .inl (.of_ends (Call.ends_upTo_zero _) script)
    · have hlen : got.length = min (min m (n + 1)) unread.length := List.length_take
      rw [List.isEmpty_iff_length_eq_zero.mp hgot] at hlen
      refine .inr ⟨rfl, ?_, (Passes.refl script).cons (Nat.pos_of_ne_zero hm)⟩
      exact (List.eq_nil_of_length_eq_zero (by omega)).symm
  | case7 n unread m script got hgot ih =>
    have hm : 0 < m := by
      apply Nat.pos_of_ne_zero
      rintro rfl
      simp [got] at hgot
    rcases ih h with hstop | ⟨rfl, hmoved, hpass⟩
    · exact .inl (hstop.cons hm)
    · refine .inr ⟨rfl, ?_, hpass.cons hm⟩
      have hlen : got.length = min (min m (n + 1)) unread.length := List.length_take
      have hgot' : unread.take got.length = got := by
        rw [hlen, List.take_eq_take_iff]
        omega
      have hsplit := List.take_append_drop got.length unread
      rw [hgot'] at hsplit
      rw [Transfer.moved_after, hmoved, hsplit]

/-- What failed has moved less than it was to, and the last entry or the end of the input is to
blame. -/
theorem readExact_of_error {n : Nat} {unread : List UInt8} {script : Script} {e : IoError}
    (h : (readExact n unread script).result = .error e) :
    (readExact n unread script).moved.length < n ∧ (readExact n unread script).moved <+: unread ∧
      ReadingEnds unread script e (readExact n unread script).moved
        (readExact n unread script).script := by
  have hmoved := readExact_moved n unread script
  rw [h] at hmoved
  rcases hmoved with ⟨k, hk, htake, hle⟩
  refine ⟨?_, ?_, readingEnds_readExact h⟩
  · rw [htake, List.length_take]
    omega
  · rw [htake]
    exact List.take_prefix k unread

theorem readExact_harmless {n : Nat} {unread : List UInt8} {script : Script}
    (hs : Harmless script) (hn : n ≤ unread.length) :
    (readExact n unread script).result = .ok () := by
  cases h : (readExact n unread script).result with
  | ok u => rfl
  | error e =>
    obtain ⟨hlt, _, hstop | ⟨_, hmoved, _⟩⟩ := readExact_of_error h
    · exact absurd hs hstop.not_harmless
    · rw [hmoved] at hlt
      omega

/-- On a channel that cannot fail, all of a short input is moved before the end is met. -/
theorem readExact_harmless_short {n : Nat} {unread : List UInt8} {script : Script}
    (hs : Harmless script) (hn : unread.length < n) :
    (readExact n unread script).result = .error .unexpectedEnd ∧
      (readExact n unread script).moved = unread ∧
      Passes script (readExact n unread script).script := by
  cases h : (readExact n unread script).result with
  | ok u =>
    have := (readExact_of_ok h).1
    omega
  | error e =>
    obtain ⟨_, _, hstop | ⟨rfl, hmoved, hpass⟩⟩ := readExact_of_error h
    · exact absurd hs hstop.not_harmless
    · exact ⟨rfl, hmoved, hpass⟩

end CompressedRefs.Wire
