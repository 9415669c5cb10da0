import CompressedRefs.Proofs.Heap.Tiling
import Mathlib.Algebra.BigOperators.Group.List.Basic

/-!
# Batches of blocks

Between two resets a heap only ever loses room, by the footprint of each block that it
grants and by nothing else.  What it grants of a batch is therefore a matter of one sum:
the order of the sizes does not enter, and a heap from which blocks of one size are taken
for as long as it grants them has the quotient as their number and the remainder as its
room.

The room is the measure by which such a heap runs empty.  It falls even for blocks of no
size, since these take up eight bytes as well.  The sum of a batch is counted in `Nat`
and may be larger than any word.

## Main definitions

* `Heap.room`, `Heap.demand` — the bytes that a heap has left, and those that a batch takes up.
* `Heap.GrantsAll` — a heap has room for a whole batch.
* `Heap.drain` — take blocks of one size until there is no room for another.

## Main statements

* `Heap.grantsAll_iff` — a batch fits if its sum does.
* `Heap.starts_drain`, `Heap.room_drain` — the blocks of a heap that is drained, and what is left.
* `Heap.run_fits_exactly` — batches, drained heaps and resets over any region.
-/

namespace CompressedRefs.Heap

variable {h h' : Heap} {size : UInt64} {sizes sizes' : List UInt64}

/-! ## Room -/

/-- How many bytes are left. -/
def room (h : Heap) : Nat := h.limit.toNat - h.cursor.toNat

/-- Where the cursor stands does not matter for what fits, only what is left behind it. -/
theorem room_lt_blockSize_iff (h : Heap) (n : Nat) :
    h.room < blockSize n ↔ h.limit.toNat < h.cursor.toNat + blockSize n := by
  have hpos := blockSize_pos n
  rw [room]
  omega

theorem alloc?_eq_none_iff_room_lt : h.alloc? size = none ↔ h.room < blockSize size.toNat :=
  alloc?_eq_none_iff.trans (h.room_lt_blockSize_iff _).symm

/-- A block takes its footprint from the room. -/
theorem room_of_alloc? {a : Address} (ha : h.alloc? size = some (a, h')) :
    h'.room + blockSize size.toNat = h.room := by
  obtain ⟨-, -, hlimit, hcursor⟩ := alloc?_eq_some ha
  have hfits : ¬h.limit.toNat < h.cursor.toNat + blockSize size.toNat := fun hexceeds => by
    rw [← alloc?_eq_none_iff, ha] at hexceeds
    cases hexceeds
  rw [room, room, hlimit, hcursor]
  omega

theorem room_lt_of_alloc? {a : Address} (ha : h.alloc? size = some (a, h')) : h'.room < h.room :=
  room_of_alloc? ha ▸ Nat.lt_add_of_pos_right (blockSize_pos size.toNat)

theorem step_alloc_of_room_lt (hroom : h.room < blockSize size.toNat) :
    h.step (.alloc size) = (.refused, h) :=
  step_alloc_of_exceeds ((h.room_lt_blockSize_iff _).mp hroom)

/-- A block that there is room for takes its size from the room and adds it to the cursor. -/
theorem step_alloc_of_le_room (hroom : blockSize size.toNat ≤ h.room) :
    ∃ h', h.step (.alloc size) = (.granted ⟨h.cursor⟩, h') ∧
      h'.room + blockSize size.toNat = h.room ∧
      h'.cursor.toNat = h.cursor.toNat + blockSize size.toNat := by
  have hfits := Nat.le_of_not_lt (mt (h.room_lt_blockSize_iff _).mpr (Nat.not_lt_of_le hroom))
  obtain ⟨next, hnext, hstep⟩ := step_alloc_of_fits hfits
  refine ⟨_, hstep, ?_, hnext⟩
  simp only [room, hnext]
  omega

theorem room_step_alloc_le (h : Heap) (size : UInt64) : (h.step (.alloc size)).2.room ≤ h.room := by
  rcases Nat.lt_or_ge h.room (blockSize size.toNat) with hroom | hroom
  · rw [step_alloc_of_room_lt hroom]
  · obtain ⟨h', hstep, hrest, -⟩ := step_alloc_of_le_room hroom
    rw [hstep]
    exact Nat.le_of_add_right_le (Nat.le_of_eq hrest)

/-- Only a reset gives room back. -/
theorem room_run_alloc_le (h : Heap) (sizes : List UInt64) :
    (h.run (sizes.map .alloc)).2.room ≤ h.room := by
  induction sizes generalizing h with
  | nil => exact Nat.le_refl _
  | cons size sizes ih => exact (ih _).trans (room_step_alloc_le h size)

/-- A new heap has room for what is left of its capacity in front of the largest word. -/
theorem room_ofRegion {base : Address} (capacity : UInt64)
    (hbase : base.value.toNat ≤ 0xFFFFFFFFFFFFFFF8) :
    (ofRegion base capacity).room =
      min ((ofRegion base capacity).base.toNat + capacity.toNat) 0xFFFFFFFFFFFFFFFF -
        (ofRegion base capacity).base.toNat := by
  rw [room, cursor_ofRegion, (ofRegion_of_le capacity hbase).2]

/-- A reset forgets everything but the region. -/
theorem step_reset_eq_ofRegion {base : Address} {capacity : UInt64}
    (hbase : h.base = (ofRegion base capacity).base)
    (hlimit : h.limit = (ofRegion base capacity).limit) :
    (h.step .reset).2 = ofRegion base capacity :=
  Heap.ext hbase (hbase.trans (cursor_ofRegion capacity base).symm) hlimit

/-! ## Batches -/

/-- How many bytes the blocks of a batch take up. -/
def demand (sizes : List UInt64) : Nat := (sizes.map fun size => blockSize size.toNat).sum

theorem demand_cons (size : UInt64) (sizes : List UInt64) :
    demand (size :: sizes) = blockSize size.toNat + demand sizes := rfl

theorem demand_eq_of_perm (hsizes : sizes.Perm sizes') : demand sizes = demand sizes' :=
  (hsizes.map _).sum_eq

/-- Every block of a batch is granted. -/
def GrantsAll (h : Heap) (sizes : List UInt64) : Prop :=
  ∀ reply ∈ (h.run (sizes.map .alloc)).1, ∃ a, reply.1 = .granted a

theorem grantsAll_cons :
    h.GrantsAll (size :: sizes) ↔
      (∃ a, (h.step (.alloc size)).1 = .granted a) ∧
        (h.step (.alloc size)).2.GrantsAll sizes :=
  List.forall_mem_cons

/-- **A batch fits if its sum does**, in whatever order its blocks are asked for. -/
theorem grantsAll_iff (h : Heap) (sizes : List UInt64) :
    h.GrantsAll sizes ↔ demand sizes ≤ h.room := by
  induction sizes generalizing h with
  | nil =>
    refine iff_of_true ?_ (Nat.zero_le _)
    intro reply hreply
    cases hreply
  | cons size sizes ih =>
    rw [grantsAll_cons, ih, demand_cons]
    rcases Nat.lt_or_ge h.room (blockSize size.toNat) with hroom | hroom
    · rw [step_alloc_of_room_lt hroom]
      refine iff_of_false ?_ (by omega)
      rintro ⟨⟨a, ha⟩, -⟩
      cases ha
    · obtain ⟨h', hstep, hrest, -⟩ := step_alloc_of_le_room hroom
      rw [hstep, ← hrest, Nat.add_comm, Nat.add_le_add_iff_right]
      exact and_iff_right ⟨_, rfl⟩

/-- A batch that there is room for moves the cursor by all that it asks for. -/
theorem cursor_run_of_demand_le (hdemand : demand sizes ≤ h.room) :
    (h.run (sizes.map .alloc)).2.cursor.toNat = h.cursor.toNat + demand sizes := by
  induction sizes generalizing h with
  | nil => rfl
  | cons size sizes ih =>
    rw [demand_cons] at hdemand ⊢
    obtain ⟨h', hstep, hrest, hcursor⟩ :=
      step_alloc_of_le_room (Nat.le_of_add_right_le hdemand)
    have hlater := ih (h := h') (by omega)
    rw [← Nat.add_assoc, ← hcursor, ← hlater, List.map_cons, run, Session.run_cons, hstep, run]

theorem toNat_used_of_demand_le (hfilled : Filled h []) (hdemand : demand sizes ≤ h.room) :
    (h.run (sizes.map .alloc)).2.used.toNat = demand sizes := by
  have hempty : h.base.toNat = h.cursor.toNat := hfilled.tiles
  have hused := UInt64.toNat_sub_of_le _ _ (hfilled.run (sizes.map .alloc)).base_le_cursor
  rw [(region_run h _).1] at hused
  rw [used, (region_run h _).1, hused, cursor_run_of_demand_le hdemand, hempty,
    Nat.add_sub_cancel_left]

/-! ## Drained heaps -/

/-- Take blocks of one size until there is no room for another. -/
def drain (h : Heap) (size : UInt64) : List Address × Heap :=
  match _ : h.alloc? size with
  | none => ([], h)
  | some (a, h') => (a :: (h'.drain size).1, (h'.drain size).2)
termination_by h.room
decreasing_by all_goals exact room_lt_of_alloc? ‹_›

theorem region_drain (h : Heap) (size : UInt64) :
    (h.drain size).2.base = h.base ∧ (h.drain size).2.limit = h.limit := by
  fun_induction drain h size with
  | case1 h hblock => exact ⟨rfl, rfl⟩
  | case2 h a h' hblock ih =>
    obtain ⟨-, hbase, hlimit, -⟩ := alloc?_eq_some hblock
    exact ⟨ih.1.trans hbase, ih.2.trans hlimit⟩

/-- The room that is left is what division leaves. -/
theorem room_drain (h : Heap) (size : UInt64) :
    (h.drain size).2.room = h.room % blockSize size.toNat := by
  fun_induction drain h size with
  | case1 h hblock => exact (Nat.mod_eq_of_lt (alloc?_eq_none_iff_room_lt.mp hblock)).symm
  | case2 h a h' hblock ih => rw [← room_of_alloc? hblock, Nat.add_mod_right, ih]

/-- One block lies behind another, as many as division gives. -/
theorem starts_drain (h : Heap) (size : UInt64) :
    (h.drain size).1.map (fun a => a.value.toNat) =
      (List.range (h.room / blockSize size.toNat)).map
        fun k => h.cursor.toNat + k * blockSize size.toNat := by
  fun_induction drain h size with
  | case1 h hblock =>
    rw [Nat.div_eq_of_lt (alloc?_eq_none_iff_room_lt.mp hblock)]
    rfl
  | case2 h a h' hblock ih =>
    obtain ⟨rfl, -, -, hcursor⟩ := alloc?_eq_some hblock
    rw [List.map_cons, ih, ← room_of_alloc? hblock, Nat.add_div_right _ (blockSize_pos _),
      List.range_succ_eq_map, List.map_cons, List.map_map, Nat.zero_mul, Nat.add_zero]
    congr 2
    funext k
    rw [Function.comp_apply, hcursor, Nat.succ_mul]
    omega

/-- A size that a heap was drained of stays refused, however many blocks are asked for then. -/
theorem step_alloc_of_drained (h : Heap) (size : UInt64) (sizes : List UInt64) :
    let later := ((h.drain size).2.run (sizes.map .alloc)).2
    later.step (.alloc size) = (.refused, later) := by
  intro later
  have hlater : later.room ≤ (h.drain size).2.room := room_run_alloc_le _ sizes
  rw [room_drain] at hlater
  exact step_alloc_of_room_lt (hlater.trans_lt (Nat.mod_lt _ (blockSize_pos _)))

/-- **What fits into a heap is a matter of sums.**  Whatever was asked of a heap, a reset
makes it the heap that it was at the start.  From there a batch of blocks is granted if
and only if the sum of their footprints, in unbounded numbers, is at most the capacity
that the word leaves; it is then the number of used bytes, and every reordering of the
batch is granted with the same number.  Taking blocks of one size for as long as they are
granted comes to an end, after the quotient of capacity and footprint, with the blocks one
behind another; no block of this size is granted later, whatever else is asked for, until
a reset makes the heap new. -/
theorem run_fits_exactly (base : Address) (capacity : UInt64)
    (hbase : base.value.toNat ≤ 0xFFFFFFFFFFFFFFF8) :
    let empty := ofRegion base capacity
    let start := empty.base.toNat
    let space := min (start + capacity.toNat) 0xFFFFFFFFFFFFFFFF - start
    let footprint := fun size : UInt64 => 8 * (max size.toNat 1 ⌈/⌉ 8)
    (∀ requests, ((empty.run requests).2.step .reset).2 = empty) ∧
    (∀ sizes, empty.GrantsAll sizes ↔ (sizes.map footprint).sum ≤ space) ∧
    (∀ sizes sizes', sizes.Perm sizes' → empty.GrantsAll sizes →
      empty.GrantsAll sizes' ∧
        (empty.run (sizes.map .alloc)).2.used.toNat = (sizes.map footprint).sum ∧
        (empty.run (sizes'.map .alloc)).2.used = (empty.run (sizes.map .alloc)).2.used) ∧
    ∀ size,
      let drained := empty.drain size
      drained.1.map (fun a => a.value.toNat) =
          (List.range (space / footprint size)).map (fun k => start + k * footprint size) ∧
        ∀ sizes : List UInt64,
          let later := (drained.2.run (sizes.map .alloc)).2
          later.step (.alloc size) = (.refused, later) ∧ (later.step .reset).2 = empty := by
  intro empty start space footprint
  have hfootprint : footprint = fun size : UInt64 => blockSize size.toNat :=
    funext fun size => (blockSize_eq_ceilDiv size.toNat).symm
  have hroom : empty.room = space := room_ofRegion capacity hbase
  have hfilled : Filled empty [] := filled_ofRegion capacity base
  have hgrants : ∀ sizes, empty.GrantsAll sizes ↔ demand sizes ≤ space := fun sizes =>
    hroom ▸ grantsAll_iff empty sizes
  have hused : ∀ {sizes : List UInt64}, demand sizes ≤ space →
      (empty.run (sizes.map .alloc)).2.used.toNat = demand sizes := fun hdemand =>
    toNat_used_of_demand_le hfilled (hroom ▸ hdemand)
  rw [hfootprint]
  refine ⟨?_, hgrants, ?_, ?_⟩
  · intro requests
    obtain ⟨hstart, hend⟩ := region_run empty requests
    exact step_reset_eq_ofRegion hstart hend
  · intro sizes sizes' hperm hsizes
    have hdemand := (hgrants sizes).mp hsizes
    have hdemand' : demand sizes' ≤ space := demand_eq_of_perm hperm ▸ hdemand
    refine ⟨(hgrants sizes').mpr hdemand', hused hdemand, UInt64.toNat_inj.mp ?_⟩
    rw [hused hdemand, hused hdemand', demand_eq_of_perm hperm]
  · intro size drained
    refine ⟨?_, fun sizes => ?_⟩
    · have hstarts := starts_drain empty size
      rwa [hroom, cursor_ofRegion] at hstarts
    · obtain ⟨hstart, hend⟩ := region_drain empty size
      obtain ⟨hstart', hend'⟩ := region_run drained.2 (sizes.map .alloc)
      exact ⟨step_alloc_of_drained empty size sizes,
        step_reset_eq_ofRegion (hstart'.trans hstart) (hend'.trans hend)⟩

/-- A heap of eight eight-byte words: a batch that fills it, the batch turned round, and
two blocks of three words with two words to spare, which are too few for a third. -/
theorem run_fits_exactly_of_eight_words :
    let empty := ofRegion ⟨3⟩ 64
    (3 : UInt64).toNat ≤ 0xFFFFFFFFFFFFFFF8 ∧
      empty.GrantsAll [0, 40, 16] ∧ empty.GrantsAll [16, 0, 40] ∧ ¬empty.GrantsAll [40, 25] ∧
      (empty.drain 24).1.map (fun a => a.value.toNat) = [8, 32] ∧
      (((empty.drain 24).2.run [.alloc 16]).2.step (.alloc 24)).1 = .refused := by
  intro empty
  have hbase : (3 : UInt64).toNat ≤ 0xFFFFFFFFFFFFFFF8 := by decide
  obtain ⟨-, hgrants, hperm, hdrain⟩ := run_fits_exactly ⟨3⟩ 64 hbase
  have hsizes : empty.GrantsAll [0, 40, 16] := (hgrants _).mpr (by decide)
  refine ⟨hbase, hsizes, (hperm _ _ (by decide) hsizes).1, fun h => ?_,
    (hdrain 24).1.trans (by decide), congrArg Prod.fst ((hdrain 24).2 [16]).1⟩
  exact absurd ((hgrants _).mp h) (by decide)

end CompressedRefs.Heap
