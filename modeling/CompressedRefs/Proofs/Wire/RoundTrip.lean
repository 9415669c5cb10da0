import CompressedRefs.Proofs.Wire.FaultyReader
import CompressedRefs.Proofs.Wire.FaultyWriter

/-!
# Tables and their bytes correspond one to one

In a fixed byte order every table of representable addresses has bytes of its own, and
all bytes that make up whole references are those of such a table: nothing marks the
order, a length or an end, so there is nothing to be malformed.  Over channels that
cannot fail, writing and reading are the two directions.

## Main statements

* `addressesAt_acceptedBytes`, `acceptedBytes_addressesAt` — each direction undoes the other.
* `Buffer.step_writeAddresses_of_harmless`, `Buffer.step_readAddresses_of_harmless` — what a
  session does with a table when no call can fail.
* `Buffer.table_bijection` — writing and then reading, and reading and then writing.
-/

namespace CompressedRefs.Wire

/-! ## Tables without a refused address -/

theorem firstRefused_eq_length {as : List Address} (h : ∀ a ∈ as, a.Representable) :
    firstRefused as = as.length := by
  rw [firstRefused, List.findIdx_eq_length]
  intro a ha
  simp [h a ha]

theorem tableResult_eq_written {as : List Address} (h : firstRefused as = as.length) :
    tableResult as = .ok .written := by
  rw [tableResult, h, List.getElem?_eq_none (Nat.le_refl _)]

theorem representable_of_mem_addressesAt {order : ByteOrder} {n : Nat} {bytes : List UInt8}
    {a : Address} (h : a ∈ addressesAt order n bytes) : a.Representable := by
  obtain ⟨j, -, rfl⟩ := List.mem_map.mp h
  exact Ref.representable_decode _

/-! ## The two directions -/

theorem length_acceptedBytes (order : ByteOrder) (as : List Address) :
    (acceptedBytes order as).length = 4 * firstRefused as := by
  have hle : firstRefused as ≤ as.length := List.findIdx_le_length
  simp only [acceptedBytes, List.length_flatMap, ByteOrder.length_serialize, List.map_const',
    List.sum_replicate_nat, List.length_take, Nat.min_eq_left hle, Nat.mul_comm]

/-- A reader finds the bytes of each address where the writer put them: both take four bytes at
a time, in whatever order they do. -/
theorem addressesAt_acceptedBytes_eq_map (written read : ByteOrder) {as : List Address}
    (h : ∀ a ∈ as, a.Representable) :
    addressesAt read as.length (acceptedBytes written as) =
      as.map fun a => (read.deserialize (written.serialize a.truncate)).decode := by
  induction as with
  | nil => rfl
  | cons a as ih =>
    have ha : a.Representable := h a List.mem_cons_self
    have hrest := ih fun b hb => h b (List.mem_cons_of_mem a hb)
    have hlen := written.length_serialize a.truncate
    rw [acceptedBytes_cons_of_representable written ha, List.length_cons, addressesAt_succ,
      List.take_left' hlen, List.drop_left' hlen, hrest, List.map_cons]

/-- What is written in an order is read back in it. -/
theorem addressesAt_acceptedBytes (order : ByteOrder) {as : List Address}
    (h : ∀ a ∈ as, a.Representable) :
    addressesAt order as.length (acceptedBytes order as) = as := by
  have hback := Address.map_decode_map_truncate h
  rw [List.map_map] at hback
  simp only [addressesAt_acceptedBytes_eq_map order order h, order.deserialize_serialize]
  exact hback

/-- No bytes are lost or changed, since every reference is that of the address it decodes to. -/
theorem acceptedBytes_addressesAt (order : ByteOrder) {n : Nat} {bytes : List UInt8}
    (h : bytes.length = 4 * n) : acceptedBytes order (addressesAt order n bytes) = bytes := by
  induction n generalizing bytes with
  | zero => exact (List.eq_nil_of_length_eq_zero h).symm
  | succ n ih =>
    have hfront : (bytes.take 4).length = 4 := by
      rw [List.length_take]
      omega
    have hrest : (bytes.drop 4).length = 4 * n := by
      rw [List.length_drop]
      omega
    rw [addressesAt_succ, acceptedBytes_cons_of_representable order (Ref.representable_decode _),
      Ref.truncate_decode, order.serialize_deserialize hfront, ih hrest, List.take_append_drop]

/-! ## Sessions that cannot fail -/

namespace Buffer

/-- Writing a table on a channel that cannot fail, in closed form. -/
theorem step_writeAddresses_of_harmless {b : Buffer} (hb : Harmless b.writeScript)
    (order : ByteOrder) (as : List Address) :
    ∃ rest, Passes b.writeScript rest ∧
      b.step (.writeAddresses order as) =
        (⟨tableResult as, acceptedBytes order as, (b.contents ++ acceptedBytes order as).length,
            b.position⟩,
          { b with unread := b.unread ++ acceptedBytes order as, writeScript := rest }) := by
  have ht := tableWritten_writeAddressesFrom order 0 as b.writeScript
  obtain ⟨hresult, hmoved, hpass⟩ := ht.of_harmless hb
  refine ⟨_, hpass, ?_⟩
  simp only [step, writeAddresses, answerWritten, contents_written, position_written]
  simp only [written, hresult, hmoved]

/-- Reading a table that is all there on a channel that cannot fail, in closed form. -/
theorem step_readAddresses_of_harmless {b : Buffer} (hb : Harmless b.readScript)
    (order : ByteOrder) {n : Nat} (hn : 4 * n ≤ b.unread.length) :
    ∃ rest, Passes b.readScript rest ∧
      b.step (.readAddresses order n) =
        (⟨.ok (.addresses (addressesAt order n b.unread)), [], b.contents.length,
            b.position + 4 * n⟩,
          { b with
            consumed := b.consumed ++ b.unread.take (4 * n)
            unread := b.unread.drop (4 * n)
            readScript := rest }) := by
  have ht := tableRead_readAddresses order n b.unread b.readScript
  obtain ⟨hresult, hmoved, hpass⟩ := ht.of_harmless hb hn
  have hlen : (b.unread.take (4 * n)).length = 4 * n := by
    rw [List.length_take, Nat.min_eq_left hn]
  refine ⟨_, hpass, ?_⟩
  simp only [step, answerRead, contents_read b ht.moved_prefix, position_read]
  simp only [read, hresult, hmoved, hlen]
  rfl

/-- **Tables and their bytes correspond one to one.**  A table of representable addresses
is written in full, four bytes to an address, and read back as it was; and all bytes that
make up whole references are read as representable addresses, which are written as the
bytes they were read from. -/
theorem table_bijection (order : ByteOrder) {ws rs : Script} (hw : Harmless ws)
    (hr : Harmless rs) :
    (∀ as : List Address, (∀ a ∈ as, a.Representable) →
      let wrote := (ofInput [] ws rs).step (.writeAddresses order as)
      let read := wrote.2.step (.readAddresses order as.length)
      wrote.1.result = .ok .written ∧ wrote.2.contents.length = 4 * as.length ∧
        read.1.result = .ok (.addresses as) ∧ read.2.position = read.2.contents.length) ∧
    ∀ (n : Nat) (bytes : List UInt8), bytes.length = 4 * n →
      ∃ as : List Address, (∀ a ∈ as, a.Representable) ∧
        ((ofInput bytes ws rs).step (.readAddresses order n)).1.result = .ok (.addresses as) ∧
        let wrote := (ofInput [] ws rs).step (.writeAddresses order as)
        wrote.1.result = .ok .written ∧ wrote.2.contents = bytes := by
  have hwrites : Harmless (ofInput [] ws rs).writeScript := hw
  constructor
  · -- What was written is all that is unread, so reading it ends at the end.
    intro as has wrote read
    have hlen : (acceptedBytes order as).length = 4 * as.length := by
      rw [length_acceptedBytes, firstRefused_eq_length has]
    obtain ⟨left, -, hwrote⟩ := step_writeAddresses_of_harmless hwrites order as
    rw [tableResult_eq_written (firstRefused_eq_length has)] at hwrote
    have hfull : wrote.2 = ⟨[], acceptedBytes order as, left, rs⟩ := congrArg Prod.snd hwrote
    have hreads : Harmless wrote.2.readScript := by
      rw [hfull]
      exact hr
    have hunread : wrote.2.unread.length = 4 * as.length := by
      rw [hfull, hlen]
    obtain ⟨left', -, hread⟩ :=
      step_readAddresses_of_harmless hreads order (Nat.le_of_eq hunread.symm)
    refine ⟨congrArg (·.1.result) hwrote, ?_, ?_, ?_⟩
    · rw [hfull]
      exact hlen
    · have hresult : read.1.result = .ok (.addresses (addressesAt order as.length wrote.2.unread)) :=
        congrArg (·.1.result) hread
      rw [hresult, hfull, addressesAt_acceptedBytes order has]
    · have hrest : read.2.unread = wrote.2.unread.drop (4 * as.length) :=
        congrArg (·.2.unread) hread
      rw [length_contents, hrest, hfull, ← hlen, List.drop_length, List.length_nil, Nat.add_zero]
  · intro n bytes hlen
    have hreads : Harmless (ofInput bytes ws rs).readScript := hr
    obtain ⟨left, -, hread⟩ := step_readAddresses_of_harmless hreads order (Nat.le_of_eq hlen.symm)
    refine ⟨addressesAt order n bytes, fun a ha => representable_of_mem_addressesAt ha, ?_, ?_⟩
    · rw [hread]
      rfl
    · obtain ⟨left', -, hwrote⟩ :=
        step_writeAddresses_of_harmless hwrites order (addressesAt order n bytes)
      have haccepted : firstRefused (addressesAt order n bytes) = _ :=
        firstRefused_eq_length fun a ha => representable_of_mem_addressesAt ha
      rw [acceptedBytes_addressesAt order hlen, tableResult_eq_written haccepted] at hwrote
      rw [hwrote]
      exact ⟨rfl, rfl⟩

/-- The last representable address goes out in two parts and comes back byte by byte; bytes
that nobody wrote are read and reproduced. -/
theorem table_bijection_of_short_transfers :
    let ws : Script := [.upTo 3, .fail (.ofKind .interrupted)]
    let rs : Script := [.upTo 1, .upTo 1, .fail (.ofKind .interrupted), .upTo 1]
    let wrote := (ofInput [] ws rs).step (.writeAddresses .big [⟨0x7FFFFFFF8⟩, ⟨16⟩])
    Harmless ws ∧ Harmless rs ∧ wrote.1.result = .ok .written ∧
      (wrote.2.step (.readAddresses .big 2)).1.result = .ok (.addresses [⟨0x7FFFFFFF8⟩, ⟨16⟩]) ∧
      ∃ as : List Address,
        ((ofInput [1, 2, 3, 4] ws rs).step (.readAddresses .big 1)).1.result =
          .ok (.addresses as) ∧
        ((ofInput [] ws rs).step (.writeAddresses .big as)).2.contents = [1, 2, 3, 4] := by
  intro ws rs wrote
  have hw : Harmless ws := by decide
  have hr : Harmless rs := by decide
  obtain ⟨there, back⟩ := table_bijection .big hw hr
  obtain ⟨hwrote, -, hread, -⟩ := there [⟨0x7FFFFFFF8⟩, ⟨16⟩] (by decide)
  obtain ⟨as, -, hread', -, hcontents⟩ := back 1 [1, 2, 3, 4] rfl
  exact ⟨hw, hr, hwrote, hread, as, hread', hcontents⟩

end Buffer

end CompressedRefs.Wire
