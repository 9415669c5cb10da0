import CompressedRefs.Proofs.Wire.Script
import CompressedRefs.Wire.Buffer

/-!
# What a session cannot see of its scripts

An interrupted call costs a call and does nothing else, so a session does not change
when such entries are deleted from its scripts, even where a fault later ends one of
its transfers.  When no entry can end a transfer the scripts are not seen at all: the
session is the one in which every call moves all it can.

Both are simulations.  The two sessions make different numbers of calls and so stand at
different places of their scripts; what is kept is how the parts that are left compare.

## Main definitions

* `quiet`, `Deletes` — a script without its interrupted calls, and with some of them deleted.
* `Transfer.Alike`, `Respects` — transfers that end alike, on all scripts that compare.
* `Buffer.Alike` — the simulation, for any comparison of scripts that both transfers respect.
-/

namespace CompressedRefs.Wire

/-- A call that did nothing and is made again. -/
def Call.Interrupted : Call → Prop
  | upTo _ => False
  | fail e => e.isInterrupted = true

instance : DecidablePred Call.Interrupted
  | .upTo _ => inferInstanceAs (Decidable False)
  | .fail e => inferInstanceAs (Decidable (e.isInterrupted = true))

/-- A script without its interrupted calls. -/
def quiet (script : Script) : Script := script.filter fun c => decide (¬ c.Interrupted)

/-- The second script is the first with interrupted calls deleted, some of them or all. -/
inductive Deletes : Script → Script → Prop
  | nil : Deletes [] []
  | keep (c : Call) {s t : Script} (h : Deletes s t) : Deletes (c :: s) (c :: t)
  | delete {c : Call} (hc : c.Interrupted) {s t : Script} (h : Deletes s t) : Deletes (c :: s) t

theorem quiet_cons_of_interrupted {c : Call} (hc : c.Interrupted) (script : Script) :
    quiet (c :: script) = quiet script := by
  simp [quiet, hc]

theorem quiet_cons_of_not_interrupted {c : Call} (hc : ¬ c.Interrupted) (script : Script) :
    quiet (c :: script) = c :: quiet script := by
  simp [quiet, hc]

/-- Scripts that differ in interruptions have the same calls left when all of these are gone. -/
theorem Deletes.quiet_eq {s t : Script} (h : Deletes s t) : quiet t = quiet s := by
  induction h with
  | nil => rfl
  | keep c h ih =>
    by_cases hc : c.Interrupted
    · rw [quiet_cons_of_interrupted hc, quiet_cons_of_interrupted hc, ih]
    · rw [quiet_cons_of_not_interrupted hc, quiet_cons_of_not_interrupted hc, ih]
  | @delete c hc s t h ih => rw [quiet_cons_of_interrupted hc, ih]

/-- A script is harmless if, apart from interruptions, every call moves something. -/
theorem harmless_of_quiet {script : Script}
    (h : ∀ c ∈ quiet script, ∃ n, 0 < n ∧ c = .upTo n) : Harmless script := by
  intro c hc
  by_cases hi : c.Interrupted
  · cases c with
    | upTo n => exact hi.elim
    | fail e => exact hi
  · obtain ⟨n, hn, rfl⟩ := h c (List.mem_filter.mpr ⟨hc, decide_eq_true hi⟩)
    exact hn

/-! ## Transfers that end alike -/

section

variable {R : Script → Script → Prop} {ε ε' α β : Type}

/-- Transfers with the same result that moved the same bytes.  They may have made
different calls, as long as what they left of their scripts compares. -/
structure Transfer.Alike (R : Script → Script → Prop) (t t' : Transfer ε α) : Prop where
  result : t.result = t'.result
  moved : t.moved = t'.moved
  script : R t.script t'.script

theorem Transfer.Alike.mapResult {t t' : Transfer ε α} (h : t.Alike R t')
    (f : Except ε α → Except ε' β) : (t.mapResult f).Alike R (t'.mapResult f) :=
  ⟨congrArg f h.result, h.moved, h.script⟩

/-- Steps in turn are alike if each of them is, in scripts that are still related. -/
theorem Transfer.Alike.andThen {t t' : Transfer ε α} (h : t.Alike R t')
    {next : α → Script → Transfer ε β}
    (hnext : ∀ a s s', R s s' → (next a s).Alike R (next a s')) :
    (t.andThen next).Alike R (t'.andThen next) := by
  have hresult := h.result
  cases ht : t.result with
  | error e =>
    rw [ht] at hresult
    rw [andThen_of_error ht, andThen_of_error hresult.symm]
    exact ⟨rfl, h.moved, h.script⟩
  | ok a =>
    rw [ht] at hresult
    have hrest := hnext a t.script t'.script h.script
    rw [andThen_of_ok ht, andThen_of_ok hresult.symm]
    refine ⟨hrest.result, ?_, hrest.script⟩
    rw [h.moved, hrest.moved]

/-- Scripts that compare make no difference to how the transfer ends. -/
def Respects (R : Script → Script → Prop) (run : Script → Transfer ε α) : Prop :=
  ∀ s s', R s s' → (run s).Alike R (run s')

/-- Comparing scripts in this way, neither transfer of the library tells them apart. -/
structure Transparent (R : Script → Script → Prop) : Prop where
  writeAll : ∀ bytes, Respects R (writeAll bytes)
  readExact : ∀ n unread, Respects R (readExact n unread)

namespace Transparent

theorem writeRef (h : Transparent R) (order : ByteOrder) (r : Ref) :
    Respects R (writeRef order r) := by
  intro s s' hs
  exact (h.writeAll _ s s' hs).mapResult _

/-- By induction on the addresses, each of which leaves related scripts to the next. -/
theorem writeAddressesFrom (h : Transparent R) (order : ByteOrder) (index : Nat)
    (as : List Address) : Respects R (writeAddressesFrom order index as) := by
  induction as generalizing index with
  | nil =>
    intro s s' hs
    exact ⟨rfl, rfl, hs⟩
  | cons a as ih =>
    intro s s' hs
    by_cases ha : a.Representable
    · rw [writeAddressesFrom_cons_of_representable order index ha,
        writeAddressesFrom_cons_of_representable order index ha]
      exact (h.writeRef order a.truncate s s' hs).andThen fun _ => ih (index + 1)
    · rw [writeAddressesFrom_cons_of_not_representable order index ha,
        writeAddressesFrom_cons_of_not_representable order index ha]
      exact ⟨rfl, rfl, hs⟩

/-- The bytes decide what is read, and they are the same bytes. -/
theorem readRef (h : Transparent R) (order : ByteOrder) (unread : List UInt8) :
    Respects R (readRef order unread) := by
  intro s s' hs
  have hread := h.readExact 4 unread s s' hs
  refine ⟨?_, hread.moved, hread.script⟩
  simp only [Wire.readRef, Transfer.result_mapResult, hread.result, hread.moved]

theorem readAddresses (h : Transparent R) (order : ByteOrder) (count : Nat)
    (unread : List UInt8) : Respects R (readAddresses order count unread) := by
  induction count generalizing unread with
  | zero =>
    intro s s' hs
    exact ⟨rfl, rfl, hs⟩
  | succ count ih =>
    intro s s' hs
    rw [readAddresses_succ, readAddresses_succ]
    refine (h.readRef order unread s s' hs).andThen ?_
    intro r t t' ht
    exact (ih (unread.drop 4) t t' ht).mapResult _

end Transparent

end

/-! ## Sessions that answer alike -/

namespace Buffer

variable {R : Script → Script → Prop} {b b' : Buffer}

/-- The same bytes, read up to the same place, and scripts that compare. -/
structure Alike (R : Script → Script → Prop) (b b' : Buffer) : Prop where
  consumed : b.consumed = b'.consumed
  unread : b.unread = b'.unread
  writeScript : R b.writeScript b'.writeScript
  readScript : R b.readScript b'.readScript

namespace Alike

theorem contents (h : b.Alike R b') : b.contents = b'.contents := by
  rw [Buffer.contents, Buffer.contents, h.consumed, h.unread]

theorem position (h : b.Alike R b') : b.position = b'.position := by
  rw [Buffer.position, Buffer.position, h.consumed]

theorem answerWritten (h : b.Alike R b') {α : Type} {t t' : Transfer WireError α}
    (ht : t.Alike R t') :
    (b.answerWritten t).1 = (b'.answerWritten t').1 ∧
      (b.answerWritten t).2.Alike R (b'.answerWritten t').2 := by
  have hafter : (b.written t).Alike R (b'.written t') := by
    refine ⟨h.consumed, ?_, ht.script, h.readScript⟩
    rw [written, written, h.unread, ht.moved]
  refine ⟨?_, hafter⟩
  simp only [Buffer.answerWritten, ht.result, ht.moved, hafter.contents, hafter.position]

theorem answerRead (h : b.Alike R b') {α : Type} (value : α → Value)
    {t t' : Transfer WireError α} (ht : t.Alike R t') :
    (b.answerRead value t).1 = (b'.answerRead value t').1 ∧
      (b.answerRead value t).2.Alike R (b'.answerRead value t').2 := by
  have hafter : (b.read t).Alike R (b'.read t') := by
    refine ⟨?_, ?_, h.writeScript, ht.script⟩
    · rw [read, read, h.consumed, ht.moved]
    · rw [read, read, h.unread, ht.moved]
  refine ⟨?_, hafter⟩
  simp only [Buffer.answerRead, ht.result, hafter.contents, hafter.position]

/-- One step over related scripts answers alike, and its buffers differ in scripts alone. -/
theorem step (hR : Transparent R) (h : b.Alike R b') (s : Step) :
    (b.step s).1 = (b'.step s).1 ∧ (b.step s).2.Alike R (b'.step s).2 := by
  cases s with
  | writeRef order r => exact h.answerWritten (hR.writeRef order r _ _ h.writeScript)
  | writeAddresses order as =>
    exact h.answerWritten (hR.writeAddressesFrom order 0 as _ _ h.writeScript)
  | readRef order =>
    have ht := hR.readRef order b.unread _ _ h.readScript
    rw [h.unread] at ht
    simp only [Buffer.step, h.unread]
    exact h.answerRead .ref ht
  | readAddresses order count =>
    have ht := hR.readAddresses order count b.unread _ _ h.readScript
    rw [h.unread] at ht
    simp only [Buffer.step, h.unread]
    exact h.answerRead .addresses ht

theorem run (hR : Transparent R) (h : b.Alike R b') (steps : List Step) :
    (b.run steps).1 = (b'.run steps).1 ∧ (b.run steps).2.Alike R (b'.run steps).2 :=
  Session.run_simulation (fun _ _ s hs => hs.step hR s) h steps

theorem ofInput (input : List UInt8) {ws ws' rs rs' : Script} (hw : R ws ws') (hr : R rs rs') :
    (ofInput input ws rs).Alike R (ofInput input ws' rs') :=
  ⟨rfl, rfl, hw, hr⟩

end Alike

end Buffer

/-! ## Two ways to compare scripts -/

/-- An interrupted call leaves the transfer where it was, and every other call is made
by both; so they end at entries that compare, though not at the same places. -/
theorem ByCalls.respects_quiet {σ ε α : Type} {run : σ → Script → Transfer ε α}
    (h : ByCalls run) (s : σ) : Respects (fun t t' => t' = quiet t) (run s) := by
  rintro script _ rfl
  induction script generalizing s with
  | nil =>
    refine ⟨rfl, rfl, ?_⟩
    rw [h.script_nil]
    exact h.script_nil s
  | cons c script ih =>
    by_cases hc : c.Interrupted
    · rw [quiet_cons_of_interrupted hc]
      rcases h.cases s with ⟨r, hr⟩ | ⟨hagain, -⟩
      · rw [hr, hr]
        exact ⟨rfl, rfl, (quiet_cons_of_interrupted hc script).symm⟩
      · cases c with
        | upTo n => exact hc.elim
        | fail e =>
          rw [hagain e hc]
          exact ⟨(ih s).result, (ih s).moved, (ih s).script⟩
    · rw [quiet_cons_of_not_interrupted hc]
      rcases h.cases s with ⟨r, hr⟩ | ⟨-, hcall⟩
      · rw [hr, hr]
        exact ⟨rfl, rfl, (quiet_cons_of_not_interrupted hc script).symm⟩
      · rcases hcall c with ⟨r, hr⟩ | ⟨s', moved, hs'⟩
        · rw [hr, hr]
          exact ⟨rfl, rfl, rfl⟩
        · rw [hs', hs']
          exact ⟨(ih s').result, congrArg (moved ++ ·) (ih s').moved, (ih s').script⟩

theorem transparent_quiet : Transparent fun s s' => s' = quiet s where
  writeAll := byCalls_writeAll.respects_quiet
  readExact n unread := byCalls_readExact.respects_quiet (n, unread)

theorem transparent_nil : Transparent fun s s' => Harmless s ∧ s' = [] where
  writeAll := by
    rintro bytes s _ ⟨hs, rfl⟩
    have hok := writeAll_harmless bytes hs
    have hok' := writeAll_harmless bytes harmless_nil
    obtain ⟨hmoved, hpass⟩ := writeAll_of_ok hok
    refine ⟨hok.trans hok'.symm, hmoved.trans (writeAll_of_ok hok').1.symm, ?_⟩
    exact ⟨hpass.harmless hs, byCalls_writeAll.script_nil bytes⟩
  readExact := by
    rintro n unread s _ ⟨hs, rfl⟩
    have hnil := byCalls_readExact.script_nil (n, unread)
    by_cases hn : n ≤ unread.length
    · have hok := readExact_harmless hs hn
      have hok' := readExact_harmless harmless_nil hn
      obtain ⟨-, hmoved, hpass⟩ := readExact_of_ok hok
      exact ⟨hok.trans hok'.symm, hmoved.trans (readExact_of_ok hok').2.1.symm,
        hpass.harmless hs, hnil⟩
    · have hshort := Nat.lt_of_not_le hn
      obtain ⟨herror, hmoved, hpass⟩ := readExact_harmless_short hs hshort
      obtain ⟨herror', hmoved', -⟩ := readExact_harmless_short harmless_nil hshort
      exact ⟨herror.trans herror'.symm, hmoved.trans hmoved'.symm, hpass.harmless hs, hnil⟩

/-- A session may as well be run on scripts without interruptions. -/
theorem Buffer.run_quiet (input : List UInt8) (ws rs : Script) (steps : List Step) :
    (run (ofInput input ws rs) steps).1 = (run (ofInput input (quiet ws) (quiet rs)) steps).1 ∧
      (run (ofInput input ws rs) steps).2.Alike (fun s s' => s' = quiet s)
        (run (ofInput input (quiet ws) (quiet rs)) steps).2 := by
  have hstart := Alike.ofInput input (R := fun s s' => s' = quiet s) (Eq.refl (quiet ws))
    (Eq.refl (quiet rs))
  exact hstart.run transparent_quiet steps

/-- **Interruptions and short transfers are invisible.**  Deleting interrupted calls
changes no answer, that is no result, no appended byte, no length and no position, and
not the bytes at the end; and if all other calls move something, neither does deleting
the scripts. -/
theorem Buffer.run_interruptions (input : List UInt8) (ws rs : Script) (steps : List Step) :
    let session := run (ofInput input ws rs) steps
    (∀ ws' rs', Deletes ws ws' → Deletes rs rs' →
      let fewer := run (ofInput input ws' rs') steps
      fewer.1 = session.1 ∧ fewer.2.contents = session.2.contents ∧
        fewer.2.position = session.2.position) ∧
    ((∀ c ∈ quiet ws, ∃ n, 0 < n ∧ c = .upTo n) → (∀ c ∈ quiet rs, ∃ n, 0 < n ∧ c = .upTo n) →
      let unscripted := run (ofInput input [] []) steps
      session.1 = unscripted.1 ∧ session.2.contents = unscripted.2.contents ∧
        session.2.position = unscripted.2.position) := by
  intro session
  constructor
  · intro ws' rs' hw hr fewer
    rcases run_quiet input ws rs steps with ⟨hanswers, hlast⟩
    rcases run_quiet input ws' rs' steps with ⟨hanswers', hlast'⟩
    rw [hw.quiet_eq, hr.quiet_eq] at hanswers' hlast'
    exact ⟨hanswers'.trans hanswers.symm, hlast'.contents.trans hlast.contents.symm,
      hlast'.position.trans hlast.position.symm⟩
  · intro hw hr unscripted
    have hstart := Alike.ofInput input (R := fun s s' => Harmless s ∧ s' = [])
      ⟨harmless_of_quiet hw, rfl⟩ ⟨harmless_of_quiet hr, rfl⟩
    rcases hstart.run transparent_nil steps with ⟨hanswers, hlast⟩
    exact ⟨hanswers, hlast.contents, hlast.position⟩

/-- The interruption goes, and the fault behind it strikes after the same three bytes;
a session that only ever stops short is the one without a script. -/
theorem Buffer.run_interruptions_of_fault :
    let again := Call.fail (.ofKind .interrupted)
    let fault := Call.fail (.ofKind .brokenPipe)
    let steps : List Step := [.writeAddresses .little [⟨8⟩, ⟨16⟩], .readRef .big]
    Deletes [again, .upTo 3, fault] [.upTo 3, fault] ∧
      (run (ofInput [] [.upTo 3, fault] []) steps).1 =
        (run (ofInput [] [again, .upTo 3, fault] []) steps).1 ∧
      (run (ofInput [] [again, .upTo 3, fault] []) steps).2.contents = [1, 0, 0] ∧
      (∀ c ∈ quiet [.upTo 1, again], ∃ n, 0 < n ∧ c = .upTo n) ∧
      (run (ofInput [] [.upTo 1, again] [again]) steps).1 =
        (run (ofInput [] [] []) steps).1 := by
  intro again fault steps
  have hagain : again.Interrupted := rfl
  have hdeletes : Deletes [again, .upTo 3, fault] [.upTo 3, fault] :=
    .delete hagain (.keep _ (.keep _ .nil))
  have hshort : ∀ c ∈ quiet [.upTo 1, again], ∃ n, 0 < n ∧ c = .upTo n := by
    intro c hc
    obtain rfl : c = .upTo 1 := List.mem_singleton.mp hc
    exact ⟨1, by decide, rfl⟩
  have hfault := (run_interruptions [] [again, .upTo 3, fault] [] steps).1 _ _ hdeletes .nil
  have hnone : ∀ c ∈ quiet [again], ∃ n, 0 < n ∧ c = .upTo n := by
    intro c hc
    exact absurd hc List.not_mem_nil
  have hquiet := (run_interruptions [] [.upTo 1, again] [again] steps).2 hshort hnone
  exact ⟨hdeletes, hfault.1, rfl, hshort, hquiet.1⟩

end CompressedRefs.Wire
