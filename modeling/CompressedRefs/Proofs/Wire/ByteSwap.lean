import CompressedRefs.Proofs.Wire.RoundTrip

/-!
# Tables in the other byte order

Nothing in a table tells its byte order, so a reader that assumes the wrong one is not told
so either: there are as many bytes as there should be, and every four of them spell some
reference.  What is read is a table of the same length, in which every reference has its bytes
turned round.  Turning them round again gives the first table, so nothing is lost, and a table
whose references all read the same from both ends is read as if nothing had happened.

## Main definitions

* `reverseBytes`, `Ref.reversed` — a number or a reference with its four bytes turned round.
* `Address.misread` — the address that is read for another in the wrong order.
* `Buffer.inBothOrders` — write a table in one order, and read as much in the other.

## Main statements

* `Ref.deserialize_swap_serialize` — one reference in the other order.
* `Buffer.results_inBothOrders` — a table in the other order.
* `Buffer.orders_mixed_up` — what is read, and how to get back.
-/

namespace CompressedRefs

/-! ## One reference -/

/-- The number below `2 ^ 32` whose four bytes are those of `n` in reverse. -/
def reverseBytes (n : Nat) : Nat :=
  n % 0x100 * 0x1000000 + n / 0x100 % 0x100 * 0x10000 + n / 0x10000 % 0x100 * 0x100 +
    n / 0x1000000 % 0x100

theorem reverseBytes_lt (n : Nat) : reverseBytes n < 0x100000000 := by
  unfold reverseBytes
  omega

namespace Ref

/-- The reference with the bytes of another in reverse. -/
def reversed (r : Ref) : Ref := ⟨.ofNat (reverseBytes r.word.toNat)⟩

@[simp] theorem toNat_word_reversed (r : Ref) :
    r.reversed.word.toNat = reverseBytes r.word.toNat := by
  rw [reversed, UInt32.toNat_ofNat', Nat.mod_eq_of_lt (reverseBytes_lt _)]

/-- What the one order writes, the other reads back to front. -/
theorem deserialize_little_serialize_big (r : Ref) :
    ByteOrder.little.deserialize (ByteOrder.big.serialize r) = r.reversed := by
  have hr := r.word.toNat_lt
  rw [Ref.ext_iff, ← UInt32.toNat_inj, ByteOrder.serialize,
    ByteOrder.toNat_word_deserialize_little, toNat_word_reversed, reverseBytes]
  simp [Nat.shiftRight_eq_div_pow]
  omega

/-- In the other order a reference is read with its bytes turned round, whichever order that is. -/
theorem deserialize_swap_serialize (order : ByteOrder) (r : Ref) :
    order.swap.deserialize (order.serialize r) = r.reversed := by
  cases order with
  | little =>
    rw [ByteOrder.deserialize_swap, ← ByteOrder.serialize_swap]
    exact r.deserialize_little_serialize_big
  | big => exact r.deserialize_little_serialize_big

example : ByteOrder.big.deserialize (ByteOrder.little.serialize ⟨0x01020304⟩) = ⟨0x04030201⟩ := by
  decide

/-- Writing in the second order what was read in it takes the bytes as they were, so a second
mistake undoes the first. -/
@[simp] theorem reversed_reversed (r : Ref) : r.reversed.reversed = r := by
  have hthere : ByteOrder.big.deserialize (ByteOrder.little.serialize r) = r.reversed :=
    deserialize_swap_serialize .little r
  calc r.reversed.reversed
      = ByteOrder.little.deserialize (ByteOrder.big.serialize r.reversed) :=
        r.reversed.deserialize_little_serialize_big.symm
    _ = ByteOrder.little.deserialize (ByteOrder.little.serialize r) := by
        rw [← hthere, ByteOrder.serialize_deserialize .big (ByteOrder.length_serialize .little r)]
    _ = r := ByteOrder.deserialize_serialize .little r

end Ref

namespace Address

variable {a : Address} {as : List Address}

/-- The address that is read where the bytes of another are taken in the wrong order. -/
def misread (a : Address) : Address := a.truncate.reversed.decode

theorem representable_misread (a : Address) : a.misread.Representable :=
  Ref.representable_decode _

/-- In numbers, misreading is reversing the bytes of an eighth. -/
theorem toNat_value_misread (ha : a.Representable) :
    a.misread.value.toNat = 8 * reverseBytes (a.value.toNat / 8) := by
  have heighth := eight_mul_toNat_word_truncate ha
  have hword : a.truncate.word.toNat = a.value.toNat / 8 := by omega
  rw [misread, Ref.toNat_value_decode, Ref.toNat_word_reversed, hword]

theorem misread_misread (ha : a.Representable) : a.misread.misread = a := by
  rw [misread, misread, Ref.truncate_decode, Ref.reversed_reversed, decode_truncate ha]

/-- An address is read right just when its eighth is the same from both ends. -/
theorem misread_eq_iff (ha : a.Representable) :
    a.misread = a ↔ reverseBytes (a.value.toNat / 8) = a.value.toNat / 8 := by
  have haligned : a.value.toNat % 8 = 0 := ha.1
  rw [Address.ext_iff, ← UInt64.toNat_inj, toNat_value_misread ha]
  omega

/-! ## Tables -/

theorem representable_of_mem_map_misread {b : Address} (hb : b ∈ as.map misread) :
    b.Representable := by
  obtain ⟨a, -, rfl⟩ := List.mem_map.mp hb
  exact a.representable_misread

theorem map_value_map_misread (has : ∀ a ∈ as, a.Representable) :
    (as.map misread).map (fun b => b.value.toNat) =
      as.map fun a => 8 * reverseBytes (a.value.toNat / 8) := by
  rw [List.map_map]
  apply List.map_congr_left
  intro a ha
  rw [Function.comp_apply, toNat_value_misread (has a ha)]

theorem map_misread_map_misread (has : ∀ a ∈ as, a.Representable) :
    (as.map misread).map misread = as := by
  have hback : ∀ a ∈ as, (misread ∘ misread) a = id a := fun a ha => misread_misread (has a ha)
  rw [List.map_map, List.map_congr_left hback, List.map_id]

theorem map_misread_eq_iff (has : ∀ a ∈ as, a.Representable) :
    as.map misread = as ↔ ∀ a ∈ as, reverseBytes (a.value.toNat / 8) = a.value.toNat / 8 := by
  have hid : as.map misread = as ↔ as.map misread = as.map id := by rw [List.map_id]
  rw [hid, List.map_inj_left]
  constructor
  · intro h a ha
    exact (misread_eq_iff (has a ha)).mp (h a ha)
  · intro h a ha
    exact (misread_eq_iff (has a ha)).mpr (h a ha)

end Address

namespace Wire.Buffer

variable {writeScript readScript : Script} {as : List Address}

/-- Write a table in one order, and read as many addresses in the other. -/
def inBothOrders (order : ByteOrder) (as : List Address) : List Step :=
  [.writeAddresses order as, .readAddresses order.swap as.length]

/-- A table of representable addresses is all that an empty buffer holds afterwards. -/
theorem step_writeAddresses_ofInput_nil (hw : Harmless writeScript) (readScript : Script)
    (order : ByteOrder) (has : ∀ a ∈ as, a.Representable) :
    ∃ answer rest, answer.result = .ok .written ∧
      (ofInput [] writeScript readScript).step (.writeAddresses order as) =
        (answer, ⟨[], acceptedBytes order as, rest, readScript⟩) := by
  have hwrites : Harmless (ofInput [] writeScript readScript).writeScript := hw
  obtain ⟨rest, -, hstep⟩ := step_writeAddresses_of_harmless hwrites order as
  rw [tableResult_eq_written (firstRefused_eq_length has)] at hstep
  exact ⟨_, rest, rfl, hstep⟩

/-- A whole table is misread address by address. -/
theorem addressesAt_swap_acceptedBytes (order : ByteOrder) (has : ∀ a ∈ as, a.Representable) :
    addressesAt order.swap as.length (acceptedBytes order as) = as.map Address.misread := by
  rw [addressesAt_acceptedBytes_eq_map order order.swap has]
  simp only [Ref.deserialize_swap_serialize]
  rfl

/-- On channels that cannot fail both requests succeed, and all addresses are misread. -/
theorem results_inBothOrders (hw : Harmless writeScript) (hr : Harmless readScript)
    (order : ByteOrder) (has : ∀ a ∈ as, a.Representable) :
    ((ofInput [] writeScript readScript).run (inBothOrders order as)).1.map Answer.result =
      [.ok .written, .ok (.addresses (as.map Address.misread))] := by
  obtain ⟨answer, rest, hwritten, hwrote⟩ :=
    step_writeAddresses_ofInput_nil hw readScript order has
  -- What the first request leaves is what the second finds.
  let full : Buffer := ⟨[], acceptedBytes order as, rest, readScript⟩
  have hreads : Harmless full.readScript := hr
  have hlen : full.unread.length = 4 * as.length := by
    rw [length_acceptedBytes, firstRefused_eq_length has]
  have hbytes : 4 * as.length ≤ full.unread.length := Nat.le_of_eq hlen.symm
  obtain ⟨rest', -, hread⟩ := step_readAddresses_of_harmless hreads order.swap hbytes
  rw [inBothOrders, run, Session.run_cons, Session.run_cons, Session.run_nil, hwrote, hread,
    ← addressesAt_swap_acceptedBytes order has, ← hwritten]
  rfl

/-- **A table read in the wrong byte order is a table with its references turned round.**
Reading never fails.  Every address that is read is eight times the number with the four bytes
of the eighth that was written, in reverse; it is representable, and writing and reading what
was read in the same two orders gives back what was written.  The two tables are the same if
and only if every eighth reads the same from both ends.  The orders themselves are the reverse
of each other, and in either of them four bytes and references correspond one to one. -/
theorem orders_mixed_up (order : ByteOrder) (hw : Harmless writeScript)
    (hr : Harmless readScript) (has : ∀ a ∈ as, a.Representable) :
    let results := fun as : List Address =>
      ((ofInput [] writeScript readScript).run (inBothOrders order as)).1.map Answer.result
    (∃ bs : List Address, results as = [.ok .written, .ok (.addresses bs)] ∧
      bs.map (fun b => b.value.toNat) =
        as.map (fun a => 8 * reverseBytes (a.value.toNat / 8)) ∧
      (∀ b ∈ bs, b.Representable) ∧
      results bs = [.ok .written, .ok (.addresses as)] ∧
      (bs = as ↔ ∀ a ∈ as, reverseBytes (a.value.toNat / 8) = a.value.toNat / 8)) ∧
    (∀ r : Ref, ByteOrder.big.serialize r = (ByteOrder.little.serialize r).reverse ∧
      (order.swap.deserialize (order.serialize r)).word.toNat = reverseBytes r.word.toNat) ∧
    ∀ order' : ByteOrder, (∀ r, order'.deserialize (order'.serialize r) = r) ∧
      ∀ bytes : List UInt8, bytes.length = 4 →
        order'.serialize (order'.deserialize bytes) = bytes := by
  intro results
  have hmisread : ∀ b ∈ as.map Address.misread, b.Representable := fun b hb =>
    Address.representable_of_mem_map_misread hb
  have hback : results (as.map Address.misread) = [.ok .written, .ok (.addresses as)] := by
    have hagain := results_inBothOrders hw hr order hmisread
    rwa [Address.map_misread_map_misread has] at hagain
  refine ⟨⟨as.map Address.misread, results_inBothOrders hw hr order has,
    Address.map_value_map_misread has, hmisread, hback, Address.map_misread_eq_iff has⟩, ?_, ?_⟩
  · intro r
    refine ⟨ByteOrder.serialize_swap .little r, ?_⟩
    rw [Ref.deserialize_swap_serialize, Ref.toNat_word_reversed]
  · intro order'
    exact ⟨order'.deserialize_serialize, fun bytes => order'.serialize_deserialize⟩

/-- Two references that are taken for others or for themselves: the four bytes of the first
all differ, and those of the second read the same from both ends. -/
theorem orders_mixed_up_of_two :
    let ws : Script := [.upTo 3, .fail (.ofKind .interrupted)]
    let rs : Script := [.upTo 1]
    let as : List Address := [⟨0x8101820⟩, ⟨0x91A1A090⟩]
    Harmless ws ∧ Harmless rs ∧ (∀ a ∈ as, a.Representable) ∧
      ∃ bs : List Address,
        ((ofInput [] ws rs).run (inBothOrders .little as)).1.map Answer.result =
          [.ok .written, .ok (.addresses bs)] ∧
        bs.map (fun b => b.value.toNat) = [0x20181008, 0x91A1A090] ∧ bs ≠ as := by
  intro ws rs as
  have hw : Harmless ws := by decide
  have hr : Harmless rs := by decide
  have has : ∀ a ∈ as, a.Representable := by decide
  obtain ⟨⟨bs, hread, hvalues, -, -, hsame⟩, -⟩ := orders_mixed_up .little hw hr has
  refine ⟨hw, hr, has, bs, hread, hvalues.trans (by decide), ?_⟩
  intro h
  exact absurd (hsame.mp h) (by decide)

end Wire.Buffer

end CompressedRefs
