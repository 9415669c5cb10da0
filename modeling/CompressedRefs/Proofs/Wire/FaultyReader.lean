import CompressedRefs.Proofs.Wire.Script
import CompressedRefs.Wire.Buffer

/-!
# Reading a table from a faulty channel

A table is read by count and ends with the count, with a fault of the channel, or
with the input.  The count enters only as a number of bytes, four to a reference, and
that number is one of `Nat`: it is not cut to the size of a machine word.

## Main definitions

* `addressesAt` — the addresses that the front of some bytes spells.
* `TableRead` — the two ends of reading a table.
-/

namespace CompressedRefs.Wire

/-- The addresses that the first `count` groups of four bytes spell. -/
def addressesAt (order : ByteOrder) (count : Nat) (bytes : List UInt8) : List Address :=
  (List.range count).map fun j => (order.deserialize ((bytes.drop (4 * j)).take 4)).decode

@[simp] theorem length_addressesAt (order : ByteOrder) (count : Nat) (bytes : List UInt8) :
    (addressesAt order count bytes).length = count := by
  simp [addressesAt]

/-- The first four bytes are the first address, and the others are behind them. -/
theorem addressesAt_succ (order : ByteOrder) (count : Nat) (bytes : List UInt8) :
    addressesAt order (count + 1) bytes =
      (order.deserialize (bytes.take 4)).decode :: addressesAt order count (bytes.drop 4) := by
  rw [addressesAt, List.range_succ_eq_map, List.map_cons, List.map_map, Nat.mul_zero,
    List.drop_zero]
  congr 1
  apply List.map_congr_left
  intro j _
  rw [Function.comp_apply, List.drop_drop, Nat.mul_succ, Nat.add_comm 4]

/-! ## One reference -/

theorem result_readRef_of_ok {order : ByteOrder} {unread : List UInt8} {script : Script}
    (h : (readExact 4 unread script).result = .ok ()) :
    (readRef order unread script).result =
      .ok (order.deserialize (readExact 4 unread script).moved) := by
  rw [readRef, Transfer.result_mapResult, h]
  rfl

theorem result_readRef_of_error {order : ByteOrder} {unread : List UInt8} {script : Script}
    {e : IoError} (h : (readExact 4 unread script).result = .error e) :
    (readRef order unread script).result = .error (.io e) := by
  rw [readRef, Transfer.result_mapResult, h]
  rfl

/-- A reference that was read is made of the next four bytes, and no entry of the script has
stopped it. -/
theorem readRef_of_ok {order : ByteOrder} {unread : List UInt8} {script : Script} {r : Ref}
    (h : (readRef order unread script).result = .ok r) :
    4 ≤ unread.length ∧ (readRef order unread script).moved = unread.take 4 ∧
      r = order.deserialize (unread.take 4) ∧
      Passes script (readRef order unread script).script := by
  cases hr : (readExact 4 unread script).result with
  | ok u =>
    obtain ⟨hlen, hmoved, hpass⟩ := readExact_of_ok hr
    rw [result_readRef_of_ok hr, hmoved] at h
    cases h
    exact ⟨hlen, hmoved, rfl, hpass⟩
  | error e =>
    rw [result_readRef_of_error hr] at h
    cases h

/-- A reference that was not read has moved less than four bytes, and the script or the end of
the input says why. -/
theorem readRef_of_error {order : ByteOrder} {unread : List UInt8} {script : Script}
    {err : WireError} (h : (readRef order unread script).result = .error err) :
    ∃ e, err = .io e ∧ (readRef order unread script).moved.length < 4 ∧
      (readRef order unread script).moved <+: unread ∧
      ReadingEnds unread script e (readRef order unread script).moved
        (readRef order unread script).script := by
  cases hr : (readExact 4 unread script).result with
  | ok u =>
    rw [result_readRef_of_ok hr] at h
    cases h
  | error e =>
    rw [result_readRef_of_error hr] at h
    cases h
    exact ⟨e, rfl, readExact_of_error hr⟩

/-- On a channel that cannot fail, four bytes are enough. -/
theorem readRef_harmless (order : ByteOrder) {unread : List UInt8} {script : Script}
    (hs : Harmless script) (hn : 4 ≤ unread.length) :
    (readRef order unread script).result = .ok (order.deserialize (unread.take 4)) ∧
      (readRef order unread script).moved = unread.take 4 ∧
      Passes script (readRef order unread script).script := by
  cases h : (readRef order unread script).result with
  | ok r =>
    obtain ⟨_, hmoved, rfl, hpass⟩ := readRef_of_ok h
    exact ⟨rfl, hmoved, hpass⟩
  | error err =>
    obtain ⟨e, _, hlt, _, hstop | ⟨_, hmoved, _⟩⟩ := readRef_of_error h
    · exact absurd hs hstop.not_harmless
    · rw [hmoved] at hlt
      omega

theorem readRef_harmless_short (order : ByteOrder) {unread : List UInt8} {script : Script}
    (hs : Harmless script) (hn : unread.length < 4) :
    (readRef order unread script).result = .error (.io .unexpectedEnd) ∧
      (readRef order unread script).moved = unread ∧
      Passes script (readRef order unread script).script := by
  cases h : (readRef order unread script).result with
  | ok r =>
    have := (readRef_of_ok h).1
    omega
  | error err =>
    obtain ⟨e, rfl, _, _, hstop | ⟨rfl, hmoved, hpass⟩⟩ := readRef_of_error h
    · exact absurd hs hstop.not_harmless
    · exact ⟨rfl, hmoved, hpass⟩

/-! ## Tables -/

/-- How reading a table ends: with all that was asked for, or with an error of the
channel when some byte of it was missing. -/
def TableRead (order : ByteOrder) (count : Nat) (unread : List UInt8) (script : Script)
    (t : Transfer WireError (List Address)) : Prop :=
  match t.result with
  | .ok as =>
    4 * count ≤ unread.length ∧ t.moved = unread.take (4 * count) ∧
      as = addressesAt order count unread ∧ Passes script t.script
  | .error (.outOfRange _ _) => False
  | .error (.io e) =>
    t.moved.length < 4 * count ∧ t.moved <+: unread ∧
      ReadingEnds unread script e t.moved t.script

/-- A reference that was read in front of the rest of a table. -/
theorem TableRead.cons {order : ByteOrder} {count : Nat} {unread : List UInt8}
    {script middle : Script} (hlen : 4 ≤ unread.length) (hpass : Passes script middle)
    {t : Transfer WireError (List Address)}
    (h : TableRead order count (unread.drop 4) middle t) (calls : Nat) :
    TableRead order (count + 1) unread script
      ⟨t.result.map ((order.deserialize (unread.take 4)).decode :: ·), unread.take 4 ++ t.moved,
        t.script, calls⟩ := by
  have hsplit : unread.take 4 ++ unread.drop 4 = unread := List.take_append_drop 4 unread
  rcases t with ⟨(e | ⟨i, source⟩) | as, moved, left, n⟩
  · rcases h with ⟨hlt, hmoved, hend⟩
    simp only at hlt hmoved hend
    refine ⟨?_, ?_, ?_⟩
    · simp only [List.length_append, List.length_take]
      omega
    · have := (List.prefix_append_right_inj (unread.take 4)).mpr hmoved
      rwa [hsplit] at this
    · rcases hend with hstop | ⟨he, rfl, hpass'⟩
      · exact .inl (hpass.stops hstop)
      · exact .inr ⟨he, hsplit, hpass.trans hpass'⟩
  · exact h.elim
  · rcases h with ⟨hle, hmoved, has, hpass'⟩
    simp only at hmoved
    rw [List.length_drop] at hle
    refine ⟨by omega, ?_, ?_, hpass.trans hpass'⟩
    · rw [hmoved, Nat.mul_succ, Nat.add_comm, List.take_add]
    · rw [addressesAt_succ, has]

/-- The induction is on the count; input and script are what the references before
left of them. -/
theorem tableRead_readAddresses (order : ByteOrder) (count : Nat) (unread : List UInt8)
    (script : Script) :
    TableRead order count unread script (readAddresses order count unread script) := by
  induction count generalizing unread script with
  | zero => exact ⟨Nat.zero_le _, rfl, rfl, .refl script⟩
  | succ count ih =>
    rw [readAddresses_succ]
    cases hr : (readRef order unread script).result with
    | error err =>
      obtain ⟨e, rfl, hlt, hmoved, hend⟩ := readRef_of_error hr
      rw [Transfer.andThen_of_error hr]
      exact ⟨Nat.lt_of_lt_of_le hlt (by omega), hmoved, hend⟩
    | ok r =>
      obtain ⟨hlen, hmoved, rfl, hpass⟩ := readRef_of_ok hr
      rw [Transfer.andThen_of_ok hr, hmoved]
      exact (ih (unread.drop 4) _).cons hlen hpass _

/-- What was moved is always a front of the input. -/
theorem TableRead.moved_prefix {order : ByteOrder} {count : Nat} {unread : List UInt8}
    {script : Script} {t : Transfer WireError (List Address)}
    (h : TableRead order count unread script t) : t.moved <+: unread := by
  rcases t with ⟨(e | ⟨i, source⟩) | as, moved, left, n⟩
  · exact h.2.1
  · exact h.elim
  · exact h.2.1 ▸ List.take_prefix _ unread

/-- On a channel that cannot fail, a table that is all there is read. -/
theorem TableRead.of_harmless {order : ByteOrder} {count : Nat} {unread : List UInt8}
    {script : Script} {t : Transfer WireError (List Address)}
    (h : TableRead order count unread script t) (hs : Harmless script)
    (hn : 4 * count ≤ unread.length) :
    t.result = .ok (addressesAt order count unread) ∧ t.moved = unread.take (4 * count) ∧
      Passes script t.script := by
  rcases t with ⟨(e | ⟨i, source⟩) | as, moved, left, n⟩
  · rcases h with ⟨hlt, _, hstop | ⟨_, hmoved, _⟩⟩
    · exact absurd hs hstop.not_harmless
    · rw [hmoved] at hlt
      omega
  · exact h.elim
  · rcases h with ⟨_, hmoved, rfl, hpass⟩
    exact ⟨rfl, hmoved, hpass⟩

theorem TableRead.of_harmless_short {order : ByteOrder} {count : Nat} {unread : List UInt8}
    {script : Script} {t : Transfer WireError (List Address)}
    (h : TableRead order count unread script t) (hs : Harmless script)
    (hn : unread.length < 4 * count) :
    t.result = .error (.io .unexpectedEnd) ∧ t.moved = unread ∧ Passes script t.script := by
  rcases t with ⟨(e | ⟨i, source⟩) | as, moved, left, n⟩
  · rcases h with ⟨_, _, hstop | ⟨rfl, hmoved, hpass⟩⟩
    · exact absurd hs hstop.not_harmless
    · exact ⟨rfl, hmoved, hpass⟩
  · exact h.elim
  · have := h.1
    omega

theorem Buffer.length_contents (b : Buffer) :
    b.contents.length = b.position + b.unread.length := List.length_append

/-- Counted from the position, the buffer is what is unread. -/
theorem Buffer.drop_contents (b : Buffer) (i : Nat) :
    b.contents.drop (b.position + i) = b.unread.drop i := by
  rw [contents, position, ← List.drop_drop, List.drop_left]

theorem Buffer.contents_read {ε α : Type} (b : Buffer) {t : Transfer ε α}
    (h : t.moved <+: b.unread) : (b.read t).contents = b.contents := by
  rcases h with ⟨rest, hrest⟩
  rw [contents, contents, read, ← hrest, List.drop_left, List.append_assoc]

/-- **Reading a table, whatever the channel does.**  The buffer stays as it is.  With a
result every group of four bytes was read and no byte behind them; with an error some
were missing, and it is the error of the first entry that was not harmless, or of the
end of the input.  When no entry can be at fault, the bytes in front of the end decide. -/
theorem Buffer.step_readAddresses_outcome (b : Buffer) (order : ByteOrder) (count : Nat) :
    let answer := (b.step (.readAddresses order count)).1
    let after := (b.step (.readAddresses order count)).2
    (after.contents = b.contents ∧ answer.wrote = [] ∧ after.writeScript = b.writeScript ∧
      answer.position = after.position) ∧
    (match answer.result with
      | .ok value =>
        (∃ as, value = .addresses as ∧ as.length = count ∧
          ∀ (j : Nat) (h : j < as.length), as[j].value.toNat = 8 *
            (order.deserialize ((b.contents.drop (b.position + 4 * j)).take 4)).word.toNat) ∧
        after.position = b.position + 4 * count ∧ after.position ≤ b.contents.length ∧
        Passes b.readScript after.readScript
      | .error (.outOfRange _ _) => False
      | .error (.io e) =>
        after.position < b.position + 4 * count ∧ after.position ≤ b.contents.length ∧
        (Stops .unexpectedEnd b.readScript e after.readScript ∨
          e = .unexpectedEnd ∧ after.position = b.contents.length ∧
            Passes b.readScript after.readScript)) ∧
    (Harmless b.readScript →
      ((∃ as, answer.result = .ok (.addresses as)) ↔
        4 * count ≤ b.contents.length - b.position) ∧
      ((∃ err, answer.result = .error err) → after.position = b.contents.length)) := by
  intro answer after
  have h := tableRead_readAddresses order count b.unread b.readScript
  have hlength := b.length_contents
  have hresult : answer.result =
      (readAddresses order count b.unread b.readScript).result.map Value.addresses := rfl
  have hafter : after = b.read (readAddresses order count b.unread b.readScript) := rfl
  have hposition : answer.position = after.position := rfl
  have hwrote : answer.wrote = [] := rfl
  rw [hresult, hposition, hwrote, hafter]
  generalize readAddresses order count b.unread b.readScript = t at h ⊢
  have hle := h.moved_prefix.length_le
  refine ⟨⟨contents_read b h.moved_prefix, rfl, rfl, rfl⟩, ?_, ?_⟩
  · rw [position_read, hlength]
    rcases t with ⟨(e | ⟨i, source⟩) | as, moved, left, n⟩
    · rcases h with ⟨hlt, _, hend⟩
      refine ⟨Nat.add_lt_add_left hlt _, Nat.add_le_add_left hle _, ?_⟩
      rcases hend with hstop | ⟨he, hmoved, hpass⟩
      · exact .inl hstop
      · exact .inr ⟨he, congrArg (b.position + ·.length) hmoved, hpass⟩
    · exact h.elim
    · rcases h with ⟨hcount, hmoved, rfl, hpass⟩
      have hlen : moved.length = 4 * count := by
        simp only at hmoved
        rw [hmoved, List.length_take, Nat.min_eq_left hcount]
      refine ⟨⟨_, rfl, length_addressesAt .., ?_⟩, congrArg (b.position + ·) hlen,
        Nat.add_le_add_left hle _, hpass⟩
      intro j hj
      simp only [addressesAt, List.getElem_map, List.getElem_range, Ref.toNat_value_decode,
        drop_contents]
  · intro hs
    by_cases hn : 4 * count ≤ b.unread.length
    · rcases h.of_harmless hs hn with ⟨hok, _, _⟩
      rw [hok]
      refine ⟨⟨fun _ => by omega, fun _ => ⟨_, rfl⟩⟩, ?_⟩
      rintro ⟨err, herr⟩
      cases herr
    · rcases h.of_harmless_short hs (Nat.lt_of_not_le hn) with ⟨herr, hmoved, _⟩
      rw [herr, position_read, hmoved]
      constructor
      · constructor
        · rintro ⟨as, has⟩
          cases has
        · intro hcount
          omega
      · intro _
        exact hlength.symm

end CompressedRefs.Wire
