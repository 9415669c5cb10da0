import CompressedRefs.Entry.Calls
import CompressedRefs.Proofs.Wire.FrameQueue
import CompressedRefs.Proofs.Wire.RoundTrip

/-!
# Three loops over addresses

Several addresses can be encoded by one call into slots, by a call for each address and its
slot, and by writing them as a table.  All three stop at the first address that has no
reference, and what they leave is fixed by the addresses alone: the references of those in
front of it, and everything else as it was.

## Main definitions

* `Entry.filledSlots`, `Entry.batchStatus` — what is in the slots afterwards, and the status.
* `Entry.encodeInTurn` — a call for each address and its slot.

## Main statements

* `Entry.fillSlots_eq`, `Entry.encodeInTurn_eq`, `Entry.encodeArray_eq` — each loop on its own.
* `Entry.encodeArray_agrees` — all of them together.
-/

namespace CompressedRefs.Entry

open Wire (firstRefused acceptedBytes tableResult frames Harmless)

/-! ## Where the loops stop -/

/-- In front of the first refused address every address has a reference. -/
theorem representable_of_mem_take_firstRefused {as : List Address} {a : Address}
    (ha : a ∈ as.take (firstRefused as)) : a.Representable := by
  induction as with
  | nil => cases ha
  | cons b as ih =>
    by_cases hb : b.Representable
    · rw [Wire.firstRefused_cons_of_representable hb, List.take_succ_cons] at ha
      rcases List.mem_cons.mp ha with rfl | ha
      · exact hb
      · exact ih ha
    · rw [Wire.firstRefused_cons_of_not_representable hb] at ha
      cases ha

theorem not_representable_of_getElem?_firstRefused {as : List Address} {a : Address}
    (ha : as[firstRefused as]? = some a) : ¬ a.Representable := by
  obtain ⟨hlt, rfl⟩ := List.getElem?_eq_some_iff.mp ha
  exact of_decide_eq_true (List.findIdx_getElem (w := hlt))

theorem getElem?_firstRefused_eq_none_iff {as : List Address} :
    as[firstRefused as]? = none ↔ firstRefused as = as.length := by
  have hle : firstRefused as ≤ as.length := List.findIdx_le_length
  rw [List.getElem?_eq_none_iff]
  omega

/-- The slots after addresses were encoded into them up to the first refused one. -/
def filledSlots (as : List Address) (slots : List Ref) : List Ref :=
  (as.take (firstRefused as)).map Address.eighth ++ slots.drop (firstRefused as)

/-- How encoding several addresses ends. -/
def batchStatus (as : List Address) : Status :=
  if firstRefused as = as.length then .ok else .pointerOutOfRange

/-- An address that has a reference fills its own slot and leaves the others to those behind it. -/
theorem filledSlots_cons_of_representable {a : Address} (ha : a.Representable)
    (as : List Address) (slot : Ref) (slots : List Ref) :
    filledSlots (a :: as) (slot :: slots) = a.truncate :: filledSlots as slots := by
  rw [filledSlots, Wire.firstRefused_cons_of_representable ha, List.take_succ_cons,
    List.map_cons, List.drop_succ_cons, Address.truncate_eq_eighth]
  rfl

theorem filledSlots_cons_of_not_representable {a : Address} (ha : ¬ a.Representable)
    (as : List Address) (slots : List Ref) : filledSlots (a :: as) slots = slots := by
  rw [filledSlots, Wire.firstRefused_cons_of_not_representable ha]
  rfl

theorem batchStatus_cons_of_representable {a : Address} (ha : a.Representable)
    (as : List Address) : batchStatus (a :: as) = batchStatus as := by
  simp only [batchStatus, Wire.firstRefused_cons_of_representable ha, List.length_cons,
    Nat.add_right_cancel_iff]

theorem batchStatus_cons_of_not_representable {a : Address} (ha : ¬ a.Representable)
    (as : List Address) : batchStatus (a :: as) = .pointerOutOfRange := by
  rw [batchStatus, Wire.firstRefused_cons_of_not_representable ha]
  rfl

/-! ## The loops -/

/-- One call on several addresses. -/
theorem fillSlots_eq {as : List Address} {slots : List Ref} (h : as.length ≤ slots.length) :
    fillSlots as slots =
      (filledSlots as slots,
        (as[firstRefused as]?).map fun a => (firstRefused as, RangeError.mk a)) := by
  induction as generalizing slots with
  | nil => rfl
  | cons a as ih =>
    cases slots with
    | nil => exact absurd h (Nat.not_succ_le_zero _)
    | cons slot slots =>
      by_cases ha : a.Representable
      · rw [fillSlots_cons_of_representable ha, ih (Nat.le_of_succ_le_succ h),
          filledSlots_cons_of_representable ha, Wire.firstRefused_cons_of_representable ha,
          List.getElem?_cons_succ, Option.map_map]
        rfl
      · rw [fillSlots_cons_of_not_representable ha, filledSlots_cons_of_not_representable ha,
          Wire.firstRefused_cons_of_not_representable ha]
        rfl

/-- Call the single encoding on one address and its slot after another, up to the first call
that does not succeed.  Gives the status of the last call, the slots, and how many calls
succeeded. -/
def encodeInTurn : List Address → List Ref → Status × List Ref × Nat
  | a :: as, slot :: slots =>
    let (status, slot') := encodeChecked a (some slot)
    if status = .ok then
      let (last, slots', count) := encodeInTurn as slots
      (last, slot'.getD slot :: slots', count + 1)
    else (status, slot'.getD slot :: slots, 0)
  | _, slots => (.ok, slots, 0)

/-- A call for each address and its slot. -/
theorem encodeInTurn_eq {as : List Address} {slots : List Ref} (h : as.length ≤ slots.length) :
    encodeInTurn as slots = (batchStatus as, filledSlots as slots, firstRefused as) := by
  induction as generalizing slots with
  | nil => rfl
  | cons a as ih =>
    cases slots with
    | nil => exact absurd h (Nat.not_succ_le_zero _)
    | cons slot slots =>
      by_cases ha : a.Representable
      · rw [encodeInTurn, encodeChecked_of_representable ha, ih (Nat.le_of_succ_le_succ h),
          batchStatus_cons_of_representable ha, filledSlots_cons_of_representable ha,
          Wire.firstRefused_cons_of_representable ha]
        rfl
      · rw [encodeInTurn, encodeChecked_of_not_representable ha,
          batchStatus_cons_of_not_representable ha, filledSlots_cons_of_not_representable ha,
          Wire.firstRefused_cons_of_not_representable ha]
        rfl

/-- A call says that a place is missing just when it needs one that is.  Where to put the index
of a refused address is not among the places that it needs. -/
theorem status_encodeArray_eq_invalidArgument_iff (addresses : Option (List Address)) (len : Nat)
    (slots : Option (List Ref)) (failedIndex : Option Nat) :
    (encodeArray addresses len slots failedIndex).status = .invalidArgument ↔
      len ≠ 0 ∧ (addresses = none ∨ slots = none) := by
  rcases encodeArray_cases addresses len slots failedIndex with
    ⟨hlen, h⟩ | ⟨hlen, hmissing, h⟩ | ⟨hlen, haddresses, hslots, h⟩
  · simp [hlen]
  · simp [h, hlen, hmissing]
  · rcases h with h | h
    · simp [h, haddresses, hslots]
    · simp [h, haddresses, hslots]

/-- With everything in place, a call leaves what the first refused address says. -/
theorem encodeArray_eq (as : List Address) {len : Nat} {slots : List Ref}
    (h : len ≤ slots.length) (failed : Option Nat) :
    encodeArray (some as) len (some slots) failed =
      ⟨batchStatus (as.take len), some (filledSlots (as.take len) slots),
        if firstRefused (as.take len) = (as.take len).length then failed
        else failed.map fun _ => firstRefused (as.take len)⟩ := by
  by_cases hzero : len = 0
  · rw [hzero, encodeArray_zero]
    rfl
  · have hfill := fillSlots_eq (Nat.le_trans (List.length_take_le len as) h)
    rw [encodeArray, if_neg hzero]
    simp only [hfill]
    cases hlast : (as.take len)[firstRefused (as.take len)]? with
    | none =>
      have hall := getElem?_firstRefused_eq_none_iff.mp hlast
      rw [batchStatus, if_pos hall, if_pos hall]
      rfl
    | some a =>
      have hrefused : ¬ firstRefused (as.take len) = (as.take len).length := by
        rw [← getElem?_firstRefused_eq_none_iff, hlast]
        exact Option.some_ne_none a
      rw [batchStatus, if_neg hrefused, if_neg hrefused]
      rfl

/-! ## Together -/

/-- A table that ends early is refused the address at which the loops stop. -/
theorem tableResult_eq_outOfRange {as : List Address} (h : firstRefused as ≠ as.length) :
    ∃ a, as[firstRefused as]? = some a ∧ ¬ a.Representable ∧
      tableResult as = .error (.outOfRange (firstRefused as) ⟨a⟩) := by
  obtain ⟨a, ha⟩ := Option.ne_none_iff_exists'.mp (mt getElem?_firstRefused_eq_none_iff.mp h)
  refine ⟨a, ha, not_representable_of_getElem?_firstRefused ha, ?_⟩
  rw [tableResult, ha]

/-- The references that a table is written as are those that are put into slots. -/
theorem map_deserialize_frames_acceptedBytes (order : ByteOrder) (as : List Address) :
    (frames (acceptedBytes order as)).map (fun w => order.deserialize w.bytes) =
      (as.take (firstRefused as)).map Address.eighth := by
  rw [← Wire.join_acceptedFrames, Wire.frames_join, Wire.acceptedFrames, List.map_map]
  refine List.map_congr_left fun a _ => ?_
  exact order.deserialize_serialize a.eighth

/-- On a channel that cannot fail, a table leaves the references that belong into the slots. -/
theorem step_writeAddresses_references {b : Wire.Buffer} (hb : Harmless b.writeScript)
    (order : ByteOrder) (as : List Address) :
    let answer := (b.step (.writeAddresses order as)).1
    answer.wrote.length = 4 * firstRefused as ∧
      (frames answer.wrote).map (fun w => order.deserialize w.bytes) =
        (as.take (firstRefused as)).map Address.eighth ∧
      answer.result = tableResult as := by
  intro answer
  obtain ⟨rest, -, hstep⟩ := Wire.Buffer.step_writeAddresses_of_harmless hb order as
  have hwrote : answer.wrote = acceptedBytes order as := congrArg (·.1.wrote) hstep
  rw [hwrote]
  exact ⟨Wire.length_acceptedBytes order as, map_deserialize_frames_acceptedBytes order as,
    congrArg (·.1.result) hstep⟩

/-- **One call, many calls and a table agree.**  Let `i` be the place of the first of `len`
addresses that has no reference.  Encoding them in one call puts the references of those in
front of it into the first `i` slots, leaves every other slot alone, and says `i` if there is
a place to say it in.  Written as a table to a channel that cannot fail, they leave the bytes
of the same references and end at the same address; encoded one by one they leave the same
slots and the same status. -/
theorem encodeArray_agrees {as : List Address} {len : Nat} {slots : List Ref}
    (hlen : len ≤ as.length) (hslots : len ≤ slots.length) (failed : Option Nat) :
    let i := firstRefused (as.take len)
    let filled := (as.take i).map Address.eighth ++ slots.drop i
    let result := encodeArray (some as) len (some slots) failed
    (i ≤ len ∧ (∀ a ∈ as.take i, 8 * a.eighth.word.toNat = a.value.toNat) ∧
      result.slots = some filled ∧
      if i = len then result.status.code = 0 ∧ result.failedIndex = failed
      else result.status.code = -1 ∧ result.failedIndex = failed.map fun _ => i) ∧
    (∀ (order : ByteOrder) (b : Wire.Buffer), Harmless b.writeScript →
      let answer := (b.step (.writeAddresses order (as.take len))).1
      answer.wrote.length = 4 * i ∧
        (frames answer.wrote).map (fun w => order.deserialize w.bytes) = filled.take i ∧
        if i = len then answer.result = .ok .written
        else ∃ a, as[i]? = some a ∧ ¬ a.Representable ∧
          answer.result = .error (.outOfRange i ⟨a⟩)) ∧
    encodeInTurn (as.take len) slots = (result.status, filled, i) := by
  intro i filled result
  -- All lemmas above are about `as.take len`; in front of `i` it is `as`.
  have hlength : (as.take len).length = len := by
    rw [List.length_take, Nat.min_eq_left hlen]
  have hi : i ≤ len := hlength ▸ List.findIdx_le_length
  have hfront : (as.take len).take i = as.take i := by
    rw [List.take_take, Nat.min_eq_left hi]
  have hfilled : filledSlots (as.take len) slots = filled := by
    rw [filledSlots, hfront]
  have hresult : result = ⟨batchStatus (as.take len), some filled,
      if i = len then failed else failed.map fun _ => i⟩ := by
    have heq := encodeArray_eq as hslots failed
    rwa [hfilled, hlength] at heq
  have hstatus : batchStatus (as.take len) = if i = len then .ok else .pointerOutOfRange := by
    rw [batchStatus, hlength]
  refine ⟨⟨hi, ?_, ?_, ?_⟩, ?_, ?_⟩
  · intro a ha
    rw [← hfront] at ha
    rw [← Address.truncate_eq_eighth]
    exact Address.eight_mul_toNat_word_truncate (representable_of_mem_take_firstRefused ha)
  · rw [hresult]
  · rw [hresult, hstatus]
    split
    · exact ⟨rfl, rfl⟩
    · exact ⟨rfl, rfl⟩
  · -- The channel cannot fail, so a table that ends early was refused an address.
    intro order b hb answer
    obtain ⟨hwidth, hrefs, hanswer⟩ := step_writeAddresses_references hb order (as.take len)
    refine ⟨hwidth, ?_, ?_⟩
    · have hwritten : ((as.take i).map Address.eighth).length = i := by
        rw [List.length_map, List.length_take, Nat.min_eq_left (Nat.le_trans hi hlen)]
      rw [hrefs, hfront, List.take_left' hwritten]
    · rw [hanswer]
      split
      · rename_i hall
        exact Wire.tableResult_eq_written (hall.trans hlength.symm)
      · rename_i hrefused
        have hstopped : firstRefused (as.take len) ≠ (as.take len).length := fun hall =>
          hrefused (hall.trans hlength)
        obtain ⟨a, ha, hnot, htable⟩ := tableResult_eq_outOfRange hstopped
        rw [List.getElem?_take_of_lt (Nat.lt_of_le_of_ne hi hrefused)] at ha
        exact ⟨a, ha, hnot, htable⟩
  · rw [encodeInTurn_eq (hlength.symm ▸ hslots), hresult, hfilled]

/-- The third address lies just behind the window.  The fourth is not asked for, and the last
two slots keep what they held. -/
theorem encodeArray_agrees_of_refusal :
    let as : List Address := [⟨8⟩, ⟨0x7FFFFFFF8⟩, ⟨0x800000000⟩, ⟨16⟩]
    let slots : List Ref := [⟨101⟩, ⟨102⟩, ⟨103⟩, ⟨104⟩]
    let result := encodeArray (some as) 3 (some slots) (some 7)
    let wrote := (Wire.Buffer.ofInput [] [.upTo 3] []).step (.writeAddresses .little (as.take 3))
    result = ⟨.pointerOutOfRange, some [⟨1⟩, ⟨0xFFFFFFFF⟩, ⟨103⟩, ⟨104⟩], some 2⟩ ∧
      wrote.1.wrote.length = 8 ∧
      encodeInTurn (as.take 3) slots = (result.status, [⟨1⟩, ⟨0xFFFFFFFF⟩, ⟨103⟩, ⟨104⟩], 2) := by
  intro as slots result wrote
  have hlen : 3 ≤ as.length := by decide
  have hslots : 3 ≤ slots.length := by decide
  obtain ⟨-, htable, hturn⟩ := encodeArray_agrees hlen hslots (some 7)
  exact ⟨rfl, (htable .little (.ofInput [] [.upTo 3] []) (by decide)).1, hturn⟩

end CompressedRefs.Entry
