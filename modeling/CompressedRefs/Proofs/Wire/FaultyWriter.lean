import CompressedRefs.Proofs.Wire.Locality
import CompressedRefs.Wire.Buffer

/-!
# Writing a table to a faulty channel

A table is written up to its first refused address, or up to a fault of the channel,
whichever comes first.  What has to be written is fixed by the addresses alone, and
which of the two stops it by the order of the script's entries: a fault counts if some
byte is still missing when its entry is taken, and a refusal only when none is.

## Main definitions

* `firstRefused`, `acceptedBytes` — where a table ends, and its bytes up to there.
* `TableWritten`, `tableResult` — the three ends of writing a table, and the two without a fault.
-/

namespace CompressedRefs

/-- The reference whose number is an eighth of an address. -/
def Address.eighth (a : Address) : Ref := ⟨UInt32.ofNat (a.value.toNat / 8)⟩

theorem Address.truncate_eq_eighth (a : Address) : a.truncate = a.eighth := by
  rw [Ref.ext_iff, ← UInt32.toNat_inj, toNat_word_truncate, eighth, UInt32.toNat_ofNat']

namespace Wire

/-- The place of the first address that is no multiple of eight below `2 ^ 35`, or
the length of the list when there is none. -/
def firstRefused (as : List Address) : Nat := as.findIdx fun a => decide (¬ a.Representable)

/-- The bytes of the references of the addresses in front of the first refused one. -/
def acceptedBytes (order : ByteOrder) (as : List Address) : List UInt8 :=
  (as.take (firstRefused as)).flatMap fun a => order.serialize a.eighth

theorem firstRefused_cons_of_representable {a : Address} (ha : a.Representable)
    (as : List Address) : firstRefused (a :: as) = firstRefused as + 1 := by
  simp [firstRefused, List.findIdx_cons, ha]

theorem firstRefused_cons_of_not_representable {a : Address} (ha : ¬ a.Representable)
    (as : List Address) : firstRefused (a :: as) = 0 := by
  simp [firstRefused, List.findIdx_cons, ha]

theorem acceptedBytes_cons_of_representable (order : ByteOrder) {a : Address}
    (ha : a.Representable) (as : List Address) :
    acceptedBytes order (a :: as) = order.serialize a.truncate ++ acceptedBytes order as := by
  simp [acceptedBytes, firstRefused_cons_of_representable ha, Address.truncate_eq_eighth]

theorem acceptedBytes_cons_of_not_representable (order : ByteOrder) {a : Address}
    (ha : ¬ a.Representable) (as : List Address) : acceptedBytes order (a :: as) = [] := by
  simp [acceptedBytes, firstRefused_cons_of_not_representable ha]

/-! ## One reference -/

theorem result_writeRef_of_ok {order : ByteOrder} {r : Ref} {script : Script}
    (h : (writeAll (order.serialize r) script).result = .ok ()) :
    (writeRef order r script).result = .ok () :=
  congrArg (Except.mapError WireError.io) h

theorem result_writeRef_of_error {order : ByteOrder} {r : Ref} {script : Script} {e : IoError}
    (h : (writeAll (order.serialize r) script).result = .error e) :
    (writeRef order r script).result = .error (.io e) :=
  congrArg (Except.mapError WireError.io) h

/-- A reference that was written has moved all its bytes, and no entry of the script has
stopped it. -/
theorem writeRef_of_ok {order : ByteOrder} {r : Ref} {script : Script}
    (h : (writeRef order r script).result = .ok ()) :
    (writeRef order r script).moved = order.serialize r ∧
      Passes script (writeRef order r script).script := by
  cases hw : (writeAll (order.serialize r) script).result with
  | ok u => exact writeAll_of_ok hw
  | error e =>
    rw [result_writeRef_of_error hw] at h
    cases h

/-- A reference is refused by the channel only, and then not all of it was written. -/
theorem writeRef_of_error {order : ByteOrder} {r : Ref} {script : Script} {err : WireError}
    (h : (writeRef order r script).result = .error err) :
    ∃ e, err = .io e ∧
      (∃ b rest, order.serialize r = (writeRef order r script).moved ++ b :: rest) ∧
      Stops .writeZero script e (writeRef order r script).script := by
  cases hw : (writeAll (order.serialize r) script).result with
  | ok u =>
    rw [result_writeRef_of_ok hw] at h
    cases h
  | error e =>
    rw [result_writeRef_of_error hw] at h
    cases h
    exact ⟨e, rfl, writeAll_of_error hw⟩

theorem writeRef_harmless (order : ByteOrder) (r : Ref) {script : Script} (hs : Harmless script) :
    (writeRef order r script).result = .ok () ∧
      (writeRef order r script).moved = order.serialize r ∧
      Passes script (writeRef order r script).script := by
  cases h : (writeRef order r script).result with
  | ok u => exact ⟨rfl, writeRef_of_ok h⟩
  | error err =>
    obtain ⟨e, _, _, hstop⟩ := writeRef_of_error h
    exact absurd hs hstop.not_harmless

/-! ## Tables -/

/-- How writing a table, whose first address has the given index, ends: with all of
it, at its first refused address, or with a fault while some byte was missing. -/
def TableWritten (order : ByteOrder) (index : Nat) (as : List Address) (script : Script)
    (t : Transfer WireError Unit) : Prop :=
  match t.result with
  | .ok () =>
    firstRefused as = as.length ∧ t.moved = acceptedBytes order as ∧ Passes script t.script
  | .error (.outOfRange i source) =>
    (∃ h : firstRefused as < as.length, source.address = as[firstRefused as]) ∧
      i = index + firstRefused as ∧ t.moved = acceptedBytes order as ∧ Passes script t.script
  | .error (.io e) =>
    (∃ b rest, acceptedBytes order as = t.moved ++ b :: rest) ∧ Stops .writeZero script e t.script

/-- A reference that was written in front of the rest of a table. -/
theorem TableWritten.cons {order : ByteOrder} {index : Nat} {a : Address} (ha : a.Representable)
    {as : List Address} {script middle : Script} (hpass : Passes script middle)
    {t : Transfer WireError Unit} (h : TableWritten order (index + 1) as middle t) (calls : Nat) :
    TableWritten order index (a :: as) script
      ⟨t.result, order.serialize a.truncate ++ t.moved, t.script, calls⟩ := by
  have hk := firstRefused_cons_of_representable ha as
  have hS := acceptedBytes_cons_of_representable order ha as
  rcases t with ⟨_ | _, moved, left, n⟩
  · rename_i err
    cases err with
    | io e =>
      obtain ⟨⟨b, rest, hmissing⟩, hstop⟩ := h
      refine ⟨⟨b, rest, ?_⟩, hpass.stops hstop⟩
      rw [hS, hmissing, List.append_assoc]
    | outOfRange i source =>
      obtain ⟨⟨hlt, hsource⟩, hi, hall, hpass'⟩ := h
      refine ⟨⟨?_, ?_⟩, ?_, ?_, hpass.trans hpass'⟩
      · rw [hk, List.length_cons]
        omega
      · simp only [hk, List.getElem_cons_succ, hsource]
      · rw [hi, hk]
        omega
      · rw [hS, hall]
  · obtain ⟨hlen, hall, hpass'⟩ := h
    refine ⟨?_, ?_, hpass.trans hpass'⟩
    · rw [hk, hlen, List.length_cons]
    · rw [hS, hall]

/-- The induction is on the list; the script is whatever the references before it left. -/
theorem tableWritten_writeAddressesFrom (order : ByteOrder) (index : Nat) (as : List Address)
    (script : Script) :
    TableWritten order index as script (writeAddressesFrom order index as script) := by
  induction as generalizing index script with
  | nil => exact ⟨rfl, rfl, .refl script⟩
  | cons a as ih =>
    by_cases ha : a.Representable
    · rw [writeAddressesFrom_cons_of_representable order index ha]
      cases hw : (writeRef order a.truncate script).result with
      | error err =>
        obtain ⟨e, rfl, ⟨b, rest, hmissing⟩, hstop⟩ := writeRef_of_error hw
        rw [Transfer.andThen_of_error hw]
        refine ⟨⟨b, rest ++ acceptedBytes order as, ?_⟩, hstop⟩
        rw [acceptedBytes_cons_of_representable order ha, hmissing, List.append_assoc,
          List.cons_append]
      | ok u =>
        obtain ⟨hmoved, hpass⟩ := writeRef_of_ok hw
        rw [Transfer.andThen_of_ok hw, hmoved]
        exact (ih (index + 1) _).cons ha hpass _
    · have hk := firstRefused_cons_of_not_representable ha as
      rw [writeAddressesFrom_cons_of_not_representable order index ha]
      refine ⟨⟨?_, ?_⟩, ?_, ?_, .refl script⟩
      · rw [hk]
        exact Nat.zero_lt_succ _
      · simp only [hk, List.getElem_cons_zero]
      · rw [hk]
        rfl
      · exact (acceptedBytes_cons_of_not_representable order ha as).symm

/-- What was written is always a front of what belongs there. -/
theorem TableWritten.moved_prefix {order : ByteOrder} {index : Nat} {as : List Address}
    {script : Script} {t : Transfer WireError Unit} (h : TableWritten order index as script t) :
    t.moved <+: acceptedBytes order as := by
  rcases t with ⟨_ | _, moved, left, n⟩
  · rename_i err
    cases err with
    | io e =>
      obtain ⟨⟨b, rest, hmissing⟩, _⟩ := h
      exact hmissing ▸ List.prefix_append moved (b :: rest)
    | outOfRange i source => exact h.2.2.1 ▸ List.prefix_refl moved
  · exact h.2.1 ▸ List.prefix_refl moved

/-- What writing a table gives on a channel that cannot fail. -/
def tableResult (as : List Address) : Except WireError Buffer.Value :=
  match as[firstRefused as]? with
  | none => .ok .written
  | some a => .error (.outOfRange (firstRefused as) ⟨a⟩)

/-- On a channel that cannot fail, only a refused address ends a table early. -/
theorem TableWritten.of_harmless {order : ByteOrder} {as : List Address} {script : Script}
    {t : Transfer WireError Unit} (h : TableWritten order 0 as script t) (hs : Harmless script) :
    t.result.map (fun _ => Buffer.Value.written) = tableResult as ∧
      t.moved = acceptedBytes order as ∧ Passes script t.script := by
  rcases t with ⟨(e | ⟨i, source⟩) | _, moved, left, n⟩
  · exact absurd hs h.2.not_harmless
  · obtain ⟨⟨hlt, hsource⟩, rfl, hmoved, hpass⟩ := h
    refine ⟨?_, hmoved, hpass⟩
    rw [tableResult, List.getElem?_eq_getElem hlt, ← hsource, Nat.zero_add]
    rfl
  · obtain ⟨hlen, hmoved, hpass⟩ := h
    refine ⟨?_, hmoved, hpass⟩
    rw [tableResult, hlen, List.getElem?_eq_none (Nat.le_refl _)]
    rfl

/-- A fault that is put in the place of an entry that was taken strikes while some
byte of the table is missing: no entry is taken when none is. -/
theorem writeAddresses_take_fail (order : ByteOrder) (as : List Address) {script : Script} {i : Nat}
    (hi : i + (writeAddresses order as script).script.length < script.length) {e : IoError}
    (he : e.isInterrupted = false) :
    (writeAddresses order as (script.take i ++ [.fail e])).result = .error (.io e) ∧
      (writeAddresses order as (script.take i ++ [.fail e])).moved.length <
        (acceptedBytes order as).length := by
  have hlocal : Local (writeAddresses order as) := local_writeAddressesFrom order 0 as
  have hends : (Call.fail e).Ends .writeZero e := Call.ends_fail (by simp [he]) _
  have hharm : ¬ Harmless (script.take i ++ [.fail e]) := by
    intro h
    exact hends.not_harmless (h _ (by simp))
  have hleft := hlocal.script_take_append hi (.fail e)
  have h := tableWritten_writeAddressesFrom order 0 as (script.take i ++ [.fail e])
  rw [← writeAddresses] at h
  generalize writeAddresses order as (script.take i ++ [.fail e]) = t at h hleft ⊢
  rcases t with ⟨_ | _, moved, left, n⟩ <;> subst hleft
  · rename_i err
    cases err with
    | io e' =>
      obtain ⟨⟨b, rest, hmissing⟩, hstop⟩ := h
      refine ⟨by rw [hstop.ends_of_nil.2], ?_⟩
      rw [hmissing, List.length_append, List.length_cons]
      omega
    | outOfRange j source => exact absurd h.2.2.2.harmless_of_nil hharm
  · exact absurd h.2.2.harmless_of_nil hharm

/-- **Writing a table, whatever the channel does.**  A front of the accepted bytes is
appended and nothing else changes.  All of them are when the table has no refused
address, and when its first one is reported; with a fault of the channel some are
missing, and the error is that of the first entry that was not harmless.  A fault put
in the place of any entry that was taken leaves some byte missing, so no entry is
taken after the last byte. -/
theorem Buffer.step_writeAddresses_outcome (b : Buffer) (order : ByteOrder) (as : List Address) :
    let k := firstRefused as
    let S := acceptedBytes order as
    let answer := (b.step (.writeAddresses order as)).1
    let after := (b.step (.writeAddresses order as)).2
    (after.contents = b.contents ++ answer.wrote ∧ after.position = b.position ∧
      after.readScript = b.readScript ∧ answer.wrote <+: S) ∧
    (match answer.result with
      | .ok value =>
        value = .written ∧ k = as.length ∧ answer.wrote = S ∧
          Passes b.writeScript after.writeScript
      | .error (.outOfRange index source) =>
        (∃ h : k < as.length, source.address = as[k]) ∧ index = k ∧ answer.wrote = S ∧
          Passes b.writeScript after.writeScript
      | .error (.io e) =>
        answer.wrote.length < S.length ∧ Stops .writeZero b.writeScript e after.writeScript) ∧
    ∀ (i : Nat) (e : IoError), i + after.writeScript.length < b.writeScript.length →
      e.isInterrupted = false →
      let cut := { b with writeScript := b.writeScript.take i ++ [Call.fail e] }
      (cut.step (.writeAddresses order as)).1.result = .error (.io e) ∧
        (cut.step (.writeAddresses order as)).1.wrote.length < S.length := by
  intro k S answer after
  have h := tableWritten_writeAddressesFrom order 0 as b.writeScript
  refine ⟨⟨?_, rfl, rfl, h.moved_prefix⟩, ?_, ?_⟩
  · exact contents_written b _
  · have hresult : answer.result =
        (writeAddresses order as b.writeScript).result.map fun _ => Value.written := rfl
    have hwrote : answer.wrote = (writeAddresses order as b.writeScript).moved := rfl
    have hleft : after.writeScript = (writeAddresses order as b.writeScript).script := rfl
    rw [← writeAddresses] at h
    rw [hresult, hwrote, hleft]
    generalize writeAddresses order as b.writeScript = t at h ⊢
    rcases t with ⟨(e | ⟨i, source⟩) | _, moved, left, n⟩
    · obtain ⟨⟨c, rest, hmissing⟩, hstop⟩ := h
      refine ⟨?_, hstop⟩
      simp only [S, hmissing, List.length_append, List.length_cons]
      omega
    · obtain ⟨hsource, hi, hall, hpass⟩ := h
      exact ⟨hsource, by rw [hi, Nat.zero_add], hall, hpass⟩
    · exact ⟨rfl, h⟩
  · intro i e hi he cut
    obtain ⟨hresult, hlen⟩ := writeAddresses_take_fail order as hi he
    refine ⟨?_, hlen⟩
    simp [cut, step, answerWritten, hresult, Except.map]

/-- A fault behind the last byte is never met: the refusal is reported, and the entry is left. -/
example :
    ((Buffer.ofInput [] [.upTo 4, .fail (.ofKind .brokenPipe)] []).step
      (.writeAddresses .little [⟨8⟩, ⟨5⟩])).1.result = .error (.outOfRange 1 ⟨⟨5⟩⟩) :=
  rfl

end Wire

end CompressedRefs
