import CompressedRefs.Proofs.Wire.Concatenation
import CompressedRefs.Proofs.Wire.RoundTrip

/-!
# What pays for the calls

A transfer has no call for free.  A call takes an entry of the script, and when the script
is used up it moves a byte; only a call that finds the input at its end does neither, and
that one is the last.  So script and bytes bound the calls, and what a caller asks for does
not: a count that is larger than the input is like any other such count.

The bound has to pass through transfers in a row, where the script and the bytes that one of
them leaves are those of the next.  It is therefore kept with what is left of the script.

## Main definitions

* `Metered` — a transfer whose calls are paid for.

## Main statements

* `metered_readAddresses`, `metered_writeAddressesFrom` — tables of any length are.
* `readAddresses_eq_of_excess` — counts that the input does not hold cannot be told apart.
* `Buffer.step_calls_bounded` — the calls of a table, and that its count cannot add to them.
-/

namespace CompressedRefs.Wire

variable {ε ε' α β : Type}

/-- Every call of a transfer took an entry of the script or moved a byte, except for at most
one, which ended it with an error. -/
structure Metered (script : Script) (t : Transfer ε α) : Prop where
  le : t.calls + t.script.length ≤ script.length + t.moved.length + 1
  le_of_ok : ∀ a, t.result = .ok a →
    t.calls + t.script.length ≤ script.length + t.moved.length

namespace Metered

variable {script : Script} {t : Transfer ε α}

theorem of_le (h : t.calls + t.script.length ≤ script.length + t.moved.length) :
    Metered script t :=
  ⟨Nat.le_succ_of_le h, fun _ _ => h⟩

theorem pure (a : α) (script : Script) : Metered script (.pure a script : Transfer ε α) :=
  of_le (by simp)

theorem fail (e : ε) (script : Script) : Metered script (.fail e script : Transfer ε α) :=
  of_le (by simp)

/-- One more call in front is paid for by the entry that it took. -/
theorem after (h : Metered script t) (c : Call) (bytes : List UInt8) :
    Metered (c :: script) (t.after bytes) := by
  constructor
  · have hle := h.le
    simp only [Transfer.calls_after, Transfer.script_after, Transfer.moved_after,
      List.length_cons, List.length_append]
    omega
  · intro a ha
    have hle := h.le_of_ok a ha
    simp only [Transfer.calls_after, Transfer.script_after, Transfer.moved_after,
      List.length_cons, List.length_append]
    omega

/-- Whatever is made of a result, as long as an error stays one. -/
theorem mapResult (h : Metered script t) {f : Except ε α → Except ε' β}
    (hf : ∀ e, ∃ e', f (.error e) = .error e') : Metered script (t.mapResult f) := by
  refine ⟨h.le, ?_⟩
  intro b hb
  cases hresult : t.result with
  | ok a => exact h.le_of_ok a hresult
  | error e =>
    obtain ⟨e', he'⟩ := hf e
    rw [Transfer.result_mapResult, hresult, he'] at hb
    cases hb

/-- The first transfer succeeded if the second was started, so only one of them can have made
a call that nothing pays for. -/
theorem andThen (h : Metered script t) {next : α → Script → Transfer ε β}
    (hnext : ∀ a rest, Metered rest (next a rest)) : Metered script (t.andThen next) := by
  cases hresult : t.result with
  | error e =>
    rw [Transfer.andThen_of_error hresult]
    exact ⟨h.le, fun b hb => by cases hb⟩
  | ok a =>
    have hfirst := h.le_of_ok a hresult
    have hsecond := hnext a t.script
    rw [Transfer.andThen_of_ok hresult]
    constructor
    · have hle := hsecond.le
      simp only [List.length_append]
      omega
    · intro b hb
      have hle := hsecond.le_of_ok b hb
      simp only [List.length_append]
      omega

end Metered

/-! ## Single transfers -/

/-- Going on call by call takes an entry a call, so what matters is what happens when there
are none left. -/
theorem ByCalls.metered {σ : Type} {run : σ → Script → Transfer ε α} (h : ByCalls run)
    (hnil : ∀ s, Metered [] (run s [])) (s : σ) (script : Script) :
    Metered script (run s script) := by
  induction script generalizing s with
  | nil => exact hnil s
  | cons c script ih =>
    rcases h.cases s with ⟨r, hr⟩ | ⟨-, hcall⟩
    · rw [hr]
      exact .of_le (by simp)
    · rcases hcall c with ⟨r, hr⟩ | ⟨s', moved, hs'⟩
      · rw [hr]
        refine .of_le ?_
        simp only [List.length_cons, List.length_nil]
        omega
      · rw [hs']
        exact (ih s').after c moved

/-- Without a script a channel takes all bytes in one call. -/
theorem metered_writeAll (bytes : List UInt8) (script : Script) :
    Metered script (writeAll bytes script) := by
  refine byCalls_writeAll.metered ?_ bytes script
  intro bytes
  cases bytes with
  | nil => exact .pure () []
  | cons b bs => exact .of_le (by simp [writeAll])

/-- Without a script the input gives all it has in one call, and the next finds its end. -/
theorem metered_readExact (n : Nat) (unread : List UInt8) (script : Script) :
    Metered script (readExact n unread script) := by
  refine byCalls_readExact.metered ?_ (n, unread) script
  rintro ⟨_ | n, unread⟩
  · exact .pure () []
  · have hlen : (unread.take (n + 1)).length = min (n + 1) unread.length := List.length_take
    simp only [readExact]
    split
    · rename_i hall
      refine .of_le ?_
      simp only [List.length_nil]
      omega
    · refine ⟨?_, fun a ha => by cases ha⟩
      simp only [List.length_nil, List.isEmpty_iff_length_eq_zero]
      split <;> omega

theorem metered_writeRef (order : ByteOrder) (r : Ref) (script : Script) :
    Metered script (writeRef order r script) :=
  (metered_writeAll _ script).mapResult fun e => ⟨.io e, rfl⟩

theorem metered_readRef (order : ByteOrder) (unread : List UInt8) (script : Script) :
    Metered script (readRef order unread script) := by
  rw [readRef]
  exact (metered_readExact 4 unread script).mapResult fun e => ⟨.io e, rfl⟩

/-! ## Tables -/

/-- By induction on the addresses, since meters add up over steps in turn. -/
theorem metered_writeAddressesFrom (order : ByteOrder) (index : Nat) (as : List Address)
    (script : Script) : Metered script (writeAddressesFrom order index as script) := by
  induction as generalizing index script with
  | nil => exact .pure () script
  | cons a as ih =>
    by_cases ha : a.Representable
    · rw [writeAddressesFrom_cons_of_representable order index ha]
      exact (metered_writeRef order a.truncate script).andThen fun _ => ih (index + 1)
    · rw [writeAddressesFrom_cons_of_not_representable order index ha]
      exact .fail _ script

theorem metered_readAddresses (order : ByteOrder) (count : Nat) (unread : List UInt8)
    (script : Script) : Metered script (readAddresses order count unread script) := by
  induction count generalizing unread script with
  | zero => exact .pure [] script
  | succ count ih =>
    rw [readAddresses_succ]
    refine (metered_readRef order unread script).andThen ?_
    intro r rest
    exact (ih (unread.drop 4) rest).mapResult fun e => ⟨e, rfl⟩

/-- However large the count, the calls are bounded by the script and the input. -/
theorem calls_readAddresses_le (order : ByteOrder) (count : Nat) (unread : List UInt8)
    (script : Script) :
    (readAddresses order count unread script).calls ≤ script.length + unread.length + 1 := by
  have hread := tableRead_readAddresses order count unread script
  have hmoved := hread.moved_prefix.length_le
  have hle := (metered_readAddresses order count unread script).le
  omega

/-- A failed table is short of the bytes of one reference at least, which pays for the call
that failed. -/
theorem calls_writeAddresses_le (order : ByteOrder) (as : List Address) (script : Script) :
    (writeAddresses order as script).calls ≤ script.length + 4 * as.length := by
  have hmetered := metered_writeAddressesFrom order 0 as script
  have hwritten := tableWritten_writeAddressesFrom order 0 as script
  have hmoved := hwritten.moved_prefix.length_le
  have hbytes := length_acceptedBytes order as
  have haccepted : firstRefused as ≤ as.length := List.findIdx_le_length
  rw [← writeAddresses] at hmetered hwritten hmoved
  generalize writeAddresses order as script = t at hmetered hwritten hmoved ⊢
  have hle := hmetered.le
  rcases t with ⟨(e | ⟨i, source⟩) | u, moved, left, calls⟩
  · obtain ⟨⟨b, rest, hmissing⟩, -⟩ := hwritten
    rw [hmissing, List.length_append, List.length_cons] at hbytes
    simp only at hle hbytes ⊢
    omega
  · obtain ⟨⟨hlt, -⟩, -⟩ := hwritten
    simp only at hle hmoved ⊢
    omega
  · have hok := hmetered.le_of_ok u rfl
    simp only at hok hmoved ⊢
    omega

/-! ## Counts that the input does not hold -/

/-- A table that is longer than the input cannot be read to its end. -/
theorem readAddresses_of_excess (order : ByteOrder) {m : Nat} {unread : List UInt8}
    (script : Script) (hm : unread.length < 4 * m) :
    ∃ e, (readAddresses order m unread script).result = .error (.io e) := by
  have h := tableRead_readAddresses order m unread script
  generalize readAddresses order m unread script = t at h ⊢
  rcases t with ⟨(e | ⟨i, source⟩) | as, moved, left, calls⟩
  · exact ⟨e, rfl⟩
  · exact h.elim
  · exact absurd h.1 (Nat.not_le_of_lt hm)

/-- The references that the input cannot hold are never asked for. -/
theorem readAddresses_add_of_excess (order : ByteOrder) {m : Nat} {unread : List UInt8}
    (script : Script) (hm : unread.length < 4 * m) (k : Nat) :
    readAddresses order (m + k) unread script = readAddresses order m unread script := by
  obtain ⟨e, he⟩ := readAddresses_of_excess order script hm
  rw [readAddresses_add, Transfer.andThen_of_error he, ← he]

/-- Counts that are too large cannot be told apart. -/
theorem readAddresses_eq_of_excess (order : ByteOrder) {m n : Nat} {unread : List UInt8}
    (script : Script) (hm : unread.length < 4 * m) (hn : unread.length < 4 * n) :
    readAddresses order m unread script = readAddresses order n unread script := by
  rcases Nat.le_total m n with hle | hle
  · obtain ⟨k, rfl⟩ := Nat.exists_eq_add_of_le hle
    exact (readAddresses_add_of_excess order script hm k).symm
  · obtain ⟨k, rfl⟩ := Nat.exists_eq_add_of_le hle
    exact readAddresses_add_of_excess order script hn k

/-- **Tables take a bounded number of calls, whatever is asked for.**  Reading one takes no more
calls than its script has entries and the input has bytes, and one to find the end; writing
one no more than its script has entries and its references have bytes.  Counts that the input
does not hold fail, and all of them with the same error, at the same position, with the same
calls made and left. -/
theorem Buffer.step_calls_bounded (b : Buffer) (order : ByteOrder) :
    (∀ count, (readAddresses order count b.unread b.readScript).calls ≤
      b.readScript.length + b.unread.length + 1) ∧
    (∀ m n, b.unread.length / 4 < m → b.unread.length / 4 < n →
      (∃ e, (b.step (.readAddresses order m)).1.result = .error (.io e)) ∧
      b.step (.readAddresses order m) = b.step (.readAddresses order n) ∧
      (readAddresses order m b.unread b.readScript).calls =
        (readAddresses order n b.unread b.readScript).calls) ∧
    ∀ as, (writeAddresses order as b.writeScript).calls ≤ b.writeScript.length + 4 * as.length := by
  refine ⟨fun count => calls_readAddresses_le order count b.unread b.readScript, ?_,
    fun as => calls_writeAddresses_le order as b.writeScript⟩
  intro m n hm hn
  have hexcess : b.unread.length < 4 * m := by omega
  have hsame := readAddresses_eq_of_excess order b.readScript hexcess (n := n) (by omega)
  obtain ⟨e, he⟩ := readAddresses_of_excess order b.readScript hexcess
  refine ⟨⟨e, congrArg (Except.map Value.addresses) he⟩, ?_, congrArg Transfer.calls hsame⟩
  simp only [step, hsame]

/-- One whole reference and a byte, and a count of the largest word: the second reference is
the last that is asked for. -/
theorem Buffer.step_calls_bounded_of_large_count :
    let b := ofInput [8, 0, 0, 0, 1] [] [.fail (.ofKind .interrupted), .upTo 3]
    let large := 0xFFFFFFFFFFFFFFFF
    b.unread.length / 4 < large ∧ b.unread.length / 4 < 2 ∧
      b.step (.readAddresses .little large) = b.step (.readAddresses .little 2) ∧
      (b.step (.readAddresses .little 2)).1.result = .error (.io .unexpectedEnd) ∧
      (readAddresses .little large b.unread b.readScript).calls =
        (readAddresses .little 2 b.unread b.readScript).calls ∧
      (readAddresses .little 2 b.unread b.readScript).calls = 5 := by
  intro b large
  have hlarge : b.unread.length / 4 < large := by decide
  have htwo : b.unread.length / 4 < 2 := by decide
  obtain ⟨-, hsame, hcalls⟩ := (b.step_calls_bounded .little).2.1 large 2 hlarge htwo
  exact ⟨hlarge, htwo, hsame, rfl, hcalls, rfl⟩

end CompressedRefs.Wire
