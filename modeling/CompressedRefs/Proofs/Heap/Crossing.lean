import CompressedRefs.Proofs.Heap.Tiling

/-!
# Heaps that reach across the end of the window

Blocks start at multiples of eight and in rising order, so the end of the window cuts the
blocks of a heap into two runs: those in front of it have references, those behind it have
none, and being misaligned is never the cause.  The references of the first run keep the
order and the distance of their blocks, an eighth of it.

A heap whose base cannot be rounded up starts at no multiple of eight.  It has no blocks
either, so nothing has to be said about it.

## Main definitions

* `Heap.Block.ref` — the reference of a block that starts in the window.
* `Heap.granted` — the addresses that replies grant.

## Main statements

* `Heap.exists_cut` — blocks in rising order fall into two runs.
* `Heap.run_crosses_window` — the two runs of any heap, and the references of the first.
-/

namespace CompressedRefs.Heap

variable {h : Heap} {blocks : List Block}

/-- The reference of a block, if it starts in the window. -/
def Block.ref (b : Block) : Ref := b.start.truncate

/-- A block takes up eight bytes for each reference from its own up to the next. -/
theorem blockSize_eq_mul_max (n : Nat) : blockSize n = 8 * max 1 (n ⌈/⌉ 8) := by
  rw [blockSize, Nat.ceilDiv_eq_add_pred_div]
  omega

theorem Block.lt_stop (b : Block) : b.start.value.toNat < b.stop :=
  Nat.lt_add_of_pos_right (blockSize_pos _)

/-! ## Where blocks start -/

/-- Blocks that tile from a multiple of eight start at multiples of eight. -/
theorem Tiles.dvd_start {start stop : Nat} (ht : Tiles start blocks stop) (hstart : 8 ∣ start) :
    ∀ b ∈ blocks, 8 ∣ b.start.value.toNat := by
  induction blocks generalizing start with
  | nil => intro b hb; cases hb
  | cons c blocks ih =>
    obtain ⟨hc, ht⟩ := ht
    have hdvd : 8 ∣ c.start.value.toNat := hc ▸ hstart
    intro b hb
    rcases List.mem_cons.mp hb with rfl | hb
    · exact hdvd
    · exact ih ht (Nat.dvd_add hdvd (dvd_blockSize _)) b hb

theorem Filled.pairwise_start_lt (hf : Filled h blocks) :
    blocks.Pairwise fun b c => b.start < c.start := by
  refine hf.tiles.pairwise.imp ?_
  intro b c hbc
  rw [Address.lt_def, UInt64.lt_iff_toNat_lt]
  exact Nat.lt_of_lt_of_le b.lt_stop hbc

/-- A block takes at least eight bytes, so it starts in front of the limit. -/
theorem Filled.start_lt_limit (hf : Filled h blocks) {b : Block} (hb : b ∈ blocks) :
    b.start.value.toNat < h.limit.toNat := by
  have hstop := (hf.tiles.bounds b hb).2
  exact Nat.lt_of_lt_of_le b.lt_stop (hstop.trans hf.cursor_le)

/-- A base that cannot be rounded up has no room behind it, and so there is no block. -/
theorem dvd_start_of_filled {base : Address} {capacity : UInt64} (hf : Filled h blocks)
    (hbase : h.base = (ofRegion base capacity).base)
    (hlimit : h.limit = (ofRegion base capacity).limit) :
    ∀ b ∈ blocks, 8 ∣ b.start.value.toNat := by
  by_cases hround : base.value.toNat ≤ 0xFFFFFFFFFFFFFFF8
  · have hleast := (ofRegion_of_le capacity hround).1
    rw [← hbase] at hleast
    exact hf.tiles.dvd_start hleast.1.2
  · intro b hb
    rw [ofRegion_of_lt capacity (Nat.lt_of_not_le hround)] at hbase hlimit
    have hroom : h.limit = h.base := hlimit.trans hbase.symm
    have hlower := (hf.tiles.bounds b hb).1
    have hupper := hf.start_lt_limit hb
    rw [hroom] at hupper
    exact absurd hlower (Nat.not_le_of_lt hupper)

/-! ## The two sides of the cut -/

namespace Block

variable {b c : Block}

theorem representable_of_lt (hdvd : 8 ∣ b.start.value.toNat)
    (hlt : b.start.value.toNat < 0x800000000) : b.start.Representable :=
  ⟨Nat.mod_eq_zero_of_dvd hdvd, hlt⟩

/-- Behind the end of the window a block is refused for its place and not for its alignment. -/
theorem encode_of_le (hdvd : 8 ∣ b.start.value.toNat)
    (hle : 0x800000000 ≤ b.start.value.toNat) :
    b.start.encode = .error ⟨b.start⟩ ∧ (RangeError.mk b.start).exceedsWindow = true ∧
      (RangeError.mk b.start).isMisaligned = false := by
  refine ⟨?_, (RangeError.exceedsWindow_iff _).mpr hle, ?_⟩
  · exact Address.encode_of_not_representable fun hin => Nat.not_lt_of_le hle hin.2
  · rw [Bool.eq_false_iff, ne_eq, RangeError.isMisaligned_iff]
    exact fun hmod => hmod (Nat.mod_eq_zero_of_dvd hdvd)

/-- In front of it, references are as far apart as their blocks allow. -/
theorem ref_add_le (hb : b.start.Representable) (hc : c.start.Representable)
    (hbc : b.stop ≤ c.start.value.toNat) :
    b.ref.word.toNat + max 1 (b.size.toNat ⌈/⌉ 8) ≤ c.ref.word.toNat := by
  have hb' := Address.eight_mul_toNat_word_truncate hb
  have hc' := Address.eight_mul_toNat_word_truncate hc
  rw [stop, blockSize_eq_mul_max, ← hb', ← hc'] at hbc
  rw [ref, ref]
  omega

theorem ref_lt (hbc : b.ref.word.toNat + max 1 (b.size.toNat ⌈/⌉ 8) ≤ c.ref.word.toNat) :
    b.ref < c.ref := by
  rw [Ref.lt_def, UInt32.lt_iff_toNat_lt]
  omega

end Block

/-- Blocks in rising order fall into those that start in front of a place and those that do not. -/
theorem exists_cut (hblocks : blocks.Pairwise fun b c => b.start < c.start) (place : Nat) :
    ∃ low high, blocks = low ++ high ∧ (∀ b ∈ low, b.start.value.toNat < place) ∧
      ∀ b ∈ high, place ≤ b.start.value.toNat := by
  induction hblocks with
  | nil => exact ⟨[], [], rfl, by simp, by simp⟩
  | @cons c blocks hc hblocks ih =>
    obtain ⟨low, high, rfl, hlow, hhigh⟩ := ih
    by_cases hplace : c.start.value.toNat < place
    · exact ⟨c :: low, high, rfl, List.forall_mem_cons.mpr ⟨hplace, hlow⟩, hhigh⟩
    · -- The first block behind the place has all others behind itself.
      have hle := Nat.le_of_not_lt hplace
      refine ⟨[], c :: (low ++ high), rfl, by simp, List.forall_mem_cons.mpr ⟨hle, ?_⟩⟩
      intro b hb
      have hlt := hc b hb
      rw [Address.lt_def, UInt64.lt_iff_toNat_lt] at hlt
      exact hle.trans (Nat.le_of_lt hlt)

/-! ## Replies -/

/-- The addresses that replies grant. -/
def granted (replies : List (Reply × Heap)) : List Address :=
  replies.filterMap fun reply =>
    match reply.1 with
    | .granted a => some a
    | .refused => none
    | .cleared => none

/-- Without a reset no block is forgotten. -/
theorem map_start_blocksAfter (h : Heap) (blocks : List Block) {requests : List Request}
    (hrequests : ∀ request ∈ requests, request ≠ .reset) :
    (h.blocksAfter blocks requests).map Block.start =
      blocks.map Block.start ++ granted (h.run requests).1 := by
  induction requests generalizing h blocks with
  | nil => exact (List.append_nil _).symm
  | cons request requests ih =>
    obtain ⟨hrequest, hrequests⟩ := List.forall_mem_cons.mp hrequests
    have hrest := ih (h.step request).2 (Block.record blocks (request, (h.step request).1))
      hrequests
    cases request with
    | reset => exact absurd rfl hrequest
    | alloc size =>
      refine hrest.trans ?_
      simp only [run, Session.run_cons, granted, List.filterMap_cons]
      cases (h.step (.alloc size)).1 with
      | granted a => simp [Block.record]
      | refused => rfl
      | cleared => rfl

/-- **A heap crosses the end of the window once.**  Its blocks start in rising order, and a
cut divides them: in front of it every block has a reference and is found again by it, and
behind it every block is refused for lying outside the window and for no other cause.  The
references rise, each by the eighth part of its block at least, so no two blocks share one.
A region that ends with the window has no block that is refused. -/
theorem run_crosses_window (base : Address) (capacity : UInt64) (requests : List Request) :
    let empty := ofRegion base capacity
    let blocks := empty.live requests
    ((∀ request ∈ requests, request ≠ .reset) →
      granted (empty.run requests).1 = blocks.map Block.start) ∧
    (blocks.Pairwise fun b c => b.start < c.start) ∧
    (∃ low high, blocks = low ++ high ∧
      (∀ b ∈ low, b.start.encode = .ok b.ref ∧ b.ref.decode = b.start) ∧
      (∀ b ∈ high, b.start.encode = .error ⟨b.start⟩ ∧
        (RangeError.mk b.start).exceedsWindow = true ∧
        (RangeError.mk b.start).isMisaligned = false) ∧
      (low.Pairwise fun b c => b.ref < c.ref ∧
        b.ref.word.toNat + max 1 (b.size.toNat ⌈/⌉ 8) ≤ c.ref.word.toNat) ∧
      (low.map Block.ref).Nodup) ∧
    (empty.base.toNat + capacity.toNat ≤ 0x800000000 →
      ∀ b ∈ blocks, b.start.encode = .ok b.ref) := by
  intro empty blocks
  have hfilled : Filled (empty.run requests).2 blocks :=
    (filled_ofRegion capacity base).run requests
  obtain ⟨hbase, hlimit⟩ := region_run empty requests
  have hdvd := dvd_start_of_filled hfilled hbase hlimit
  refine ⟨fun hrequests => ?_, hfilled.pairwise_start_lt, ?_, ?_⟩
  · exact (map_start_blocksAfter empty [] hrequests).symm
  · obtain ⟨low, high, hcut, hlow, hhigh⟩ := exists_cut hfilled.pairwise_start_lt 0x800000000
    have hfront : ∀ b ∈ low, b.start.Representable := fun b hb =>
      Block.representable_of_lt (hdvd b (hcut ▸ List.mem_append_left high hb)) (hlow b hb)
    have hrefs : low.Pairwise fun b c => b.ref < c.ref ∧
        b.ref.word.toNat + max 1 (b.size.toNat ⌈/⌉ 8) ≤ c.ref.word.toNat := by
      have hapart := hfilled.tiles.pairwise
      rw [hcut] at hapart
      refine (List.pairwise_append.mp hapart).1.imp_of_mem ?_
      intro b c hb hc hbc
      have hadd := Block.ref_add_le (hfront b hb) (hfront c hc) hbc
      exact ⟨Block.ref_lt hadd, hadd⟩
    refine ⟨low, high, hcut, fun b hb => ?_, fun b hb => ?_, hrefs, ?_⟩
    · exact ⟨Address.encode_of_representable (hfront b hb), Address.decode_truncate (hfront b hb)⟩
    · exact Block.encode_of_le (hdvd b (hcut ▸ List.mem_append_right low hb)) (hhigh b hb)
    · rw [List.Nodup, List.pairwise_map]
      refine hrefs.imp ?_
      intro b c hbc heq
      rw [Ref.lt_def, heq] at hbc
      exact UInt32.lt_irrefl _ hbc.1
  · intro hregion b hb
    have hlt := hfilled.start_lt_limit hb
    have hend := (bounds_limit_ofRegion capacity base).2
    rw [hlimit] at hlt
    exact Address.encode_of_representable
      (Block.representable_of_lt (hdvd b hb) (Nat.lt_of_lt_of_le hlt (hend.trans hregion)))

/-- A heap around the end of the window, from an odd base and with a request that it refuses
on the way, and a heap at the other end of memory. -/
theorem run_crosses_window_of_straddling :
    let across := ofRegion ⟨0x7FFFFFFC1⟩ 128
    let requests : List Request := [.alloc 40, .alloc 200, .alloc 0, .alloc 16, .alloc 8]
    let below := ofRegion ⟨3⟩ 64
    (∀ request ∈ requests, request ≠ .reset) ∧
      (across.live requests).map Block.start =
        [⟨0x7FFFFFFC8⟩, ⟨0x7FFFFFFF0⟩, ⟨0x7FFFFFFF8⟩, ⟨0x800000008⟩] ∧
      granted (across.run requests).1 = (across.live requests).map Block.start ∧
      below.base.toNat + (64 : UInt64).toNat ≤ 0x800000000 ∧
      ∀ b ∈ below.live requests, b.start.encode = .ok b.ref := by
  intro across requests below
  have hrequests : ∀ request ∈ requests, request ≠ .reset := by simp [requests]
  have hbelow : below.base.toNat + (64 : UInt64).toNat ≤ 0x800000000 := by decide
  exact ⟨hrequests, by decide, (run_crosses_window _ _ requests).1 hrequests, hbelow,
    (run_crosses_window _ _ requests).2.2.2 hbelow⟩

end CompressedRefs.Heap
