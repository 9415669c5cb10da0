import CompressedRefs.Heap
import Mathlib.Algebra.Order.Floor.Div
import Mathlib.GroupTheory.GroupAction.Ring
import Mathlib.Order.CompletePartialOrder
import Mathlib.Order.Interval.Set.Disjoint

/-!
# Blocks tile a heap

The blocks that a heap handed out since its last reset lie one behind another, without a
gap, from its base up to its cursor.  The heap does not keep them: they are read off its
replies.  That they fit together is what makes them disjoint, and what makes the number
of used bytes the sum of their sizes.

All of it is counted in `Nat`.  A word never wraps on the way, whichever of the three
sums of an allocation would leave it, because the heap compares no sum that does not fit.

## Main definitions

* `Heap.Block`, `Heap.live` — a block that was handed out, and those since the last reset.
* `Heap.Tiles`, `Heap.Filled` — the blocks fill a range; they fill the heap up to its cursor.

## Main statements

* `Heap.step_alloc_of_fits`, `Heap.step_alloc_of_exceeds` — what one allocation does.
* `Heap.Filled.run` — a session keeps its blocks in place.
* `Heap.run_allocates_exactly` — every heap that a session can reach, and what it does next.
-/

namespace CompressedRefs.Heap

/-! ## Sizes -/

theorem blockSize_eq_ceilDiv (n : Nat) : blockSize n = 8 * (max n 1 ⌈/⌉ 8) := by
  rw [blockSize, Nat.ceilDiv_eq_add_pred_div]
  omega

theorem le_blockSize (n : Nat) : n ≤ blockSize n := by
  unfold blockSize
  omega

theorem blockSize_pos (n : Nat) : 0 < blockSize n := by
  unfold blockSize
  omega

theorem dvd_blockSize (n : Nat) : 8 ∣ blockSize n := ⟨_, Nat.mul_comm _ 8⟩

/-- The closed form of rounding up is the least multiple of eight that is not below. -/
theorem isLeast_roundUp (n : Nat) : IsLeast {m | n ≤ m ∧ 8 ∣ m} ((n + 7) / 8 * 8) := by
  refine ⟨⟨by omega, Nat.dvd_mul_left 8 _⟩, ?_⟩
  rintro m ⟨hle, k, rfl⟩
  omega

/-! ## One request -/

variable {h : Heap}

/-- A block that ends within the limit is granted at the cursor, which moves behind it. -/
theorem step_alloc_of_fits {size : UInt64}
    (hfits : h.cursor.toNat + blockSize size.toNat ≤ h.limit.toNat) :
    ∃ next : UInt64, next.toNat = h.cursor.toNat + blockSize size.toNat ∧
      h.step (.alloc size) = (.granted ⟨h.cursor⟩, { h with cursor := next }) := by
  cases ha : h.alloc? size with
  | none =>
    rw [alloc?_eq_none_iff] at ha
    omega
  | some block =>
    obtain ⟨a, h'⟩ := block
    obtain ⟨rfl, hbase, hlimit, hcursor⟩ := alloc?_eq_some ha
    refine ⟨h'.cursor, hcursor, ?_⟩
    simp only [step, ha, ← hbase, ← hlimit]

/-- A block that would end behind the limit is refused, and nothing changes. -/
theorem step_alloc_of_exceeds {size : UInt64}
    (hexceeds : h.limit.toNat < h.cursor.toNat + blockSize size.toNat) :
    h.step (.alloc size) = (.refused, h) := by
  simp only [step, alloc?_eq_none_iff.mpr hexceeds]

/-- Requests move the cursor and nothing else. -/
theorem region_step (h : Heap) (request : Request) :
    (h.step request).2.base = h.base ∧ (h.step request).2.limit = h.limit := by
  cases request with
  | reset => exact ⟨rfl, rfl⟩
  | alloc size =>
    by_cases hfits : h.cursor.toNat + blockSize size.toNat ≤ h.limit.toNat
    · obtain ⟨next, -, hstep⟩ := step_alloc_of_fits hfits
      rw [hstep]
      exact ⟨rfl, rfl⟩
    · rw [step_alloc_of_exceeds (Nat.lt_of_not_le hfits)]
      exact ⟨rfl, rfl⟩

theorem region_run (h : Heap) (requests : List Request) :
    (h.run requests).2.base = h.base ∧ (h.run requests).2.limit = h.limit := by
  refine Session.run_invariant (P := fun h' : Heap => h'.base = h.base ∧ h'.limit = h.limit) ?_
    ⟨rfl, rfl⟩ requests
  intro h' request hh
  obtain ⟨hbase, hlimit⟩ := region_step h' request
  exact ⟨hbase.trans hh.1, hlimit.trans hh.2⟩

/-! ## Blocks -/

/-- A block that was handed out: where it starts, and the size that was asked for. -/
structure Block where
  start : Address
  size : UInt64

namespace Block

/-- The bytes that were asked for. -/
def bytes (b : Block) : Set Nat :=
  Set.Ico b.start.value.toNat (b.start.value.toNat + b.size.toNat)

/-- Where the next block can start. -/
def stop (b : Block) : Nat := b.start.value.toNat + blockSize b.size.toNat

theorem bytes_subset (b : Block) : b.bytes ⊆ Set.Ico b.start.value.toNat b.stop :=
  Set.Ico_subset_Ico_right (Nat.add_le_add_left (le_blockSize _) _)

theorem disjoint_bytes {b c : Block} (hbc : b.stop ≤ c.start.value.toNat) :
    Disjoint b.bytes c.bytes := by
  rw [Set.disjoint_left]
  intro n hb hc
  exact Nat.not_lt_of_le (hbc.trans hc.1) (b.bytes_subset hb).2

/-- The blocks after one more exchange: a granted one joins them, a reset forgets them. -/
def record (blocks : List Block) : Request × Reply → List Block
  | (.alloc size, .granted a) => blocks ++ [⟨a, size⟩]
  | (.alloc _, _) => blocks
  | (.reset, _) => []

end Block

/-- The blocks after a session, if there were `blocks` before it. -/
def blocksAfter (h : Heap) (blocks : List Block) (requests : List Request) : List Block :=
  (requests.zip ((h.run requests).1.map Prod.fst)).foldl Block.record blocks

/-- The blocks that a session handed out since its last reset. -/
def live (h : Heap) (requests : List Request) : List Block := h.blocksAfter [] requests

/-- Blocks lie one behind another, the first at `start` and the last up to `stop`. -/
def Tiles (start : Nat) : List Block → Nat → Prop
  | [], stop => start = stop
  | b :: bs, stop => b.start.value.toNat = start ∧ Tiles b.stop bs stop

namespace Tiles

variable {start stop : Nat} {blocks : List Block}

theorem concat (ht : Tiles start blocks stop) {b : Block} (hb : b.start.value.toNat = stop) :
    Tiles start (blocks ++ [b]) b.stop := by
  induction blocks generalizing start with
  | nil => exact ⟨hb.trans ht.symm, rfl⟩
  | cons c blocks ih => exact ⟨ht.1, ih ht.2⟩

/-- The blocks leave no gap, so their sizes add up to the whole. -/
theorem stop_eq (ht : Tiles start blocks stop) :
    stop = start + (blocks.map fun b => blockSize b.size.toNat).sum := by
  induction blocks generalizing start with
  | nil => exact ht.symm
  | cons b blocks ih =>
    obtain ⟨hb, ht⟩ := ht
    rw [ih ht, Block.stop, hb, List.map_cons, List.sum_cons, Nat.add_assoc]

theorem le (ht : Tiles start blocks stop) : start ≤ stop :=
  ht.stop_eq ▸ Nat.le_add_right _ _

/-- Every block lies between the ends of what the blocks tile. -/
theorem bounds (ht : Tiles start blocks stop) :
    ∀ b ∈ blocks, start ≤ b.start.value.toNat ∧ b.stop ≤ stop := by
  induction blocks generalizing start with
  | nil => intro b hb; cases hb
  | cons c blocks ih =>
    obtain ⟨hc, ht⟩ := ht
    intro b hb
    rcases List.mem_cons.mp hb with rfl | hb
    · exact ⟨Nat.le_of_eq hc.symm, ht.le⟩
    · have hlower := (ih ht b hb).1
      rw [Block.stop, hc] at hlower
      exact ⟨Nat.le_of_add_right_le hlower, (ih ht b hb).2⟩

/-- Each block ends before any later one starts. -/
theorem pairwise (ht : Tiles start blocks stop) :
    blocks.Pairwise fun b c => b.stop ≤ c.start.value.toNat := by
  induction blocks generalizing start with
  | nil => exact .nil
  | cons b blocks ih =>
    obtain ⟨-, ht⟩ := ht
    exact .cons (fun c hc => (ht.bounds c hc).1) (ih ht)

theorem dvd_stop (ht : Tiles start blocks stop) (hstart : 8 ∣ start) : 8 ∣ stop := by
  induction blocks generalizing start with
  | nil => exact ht ▸ hstart
  | cons b blocks ih =>
    obtain ⟨hb, ht⟩ := ht
    exact ih ht (Nat.dvd_add (hb ▸ hstart) (dvd_blockSize _))

end Tiles

/-! ## Sessions -/

/-- Blocks fill a heap from its base up to its cursor, and the cursor stays below the limit. -/
structure Filled (h : Heap) (blocks : List Block) : Prop where
  tiles : Tiles h.base.toNat blocks h.cursor.toNat
  cursor_le : h.cursor.toNat ≤ h.limit.toNat

namespace Filled

variable {blocks : List Block}

/-- A granted block starts at the cursor, which is where the others end. -/
theorem step (hf : Filled h blocks) (request : Request) :
    Filled (h.step request).2 (Block.record blocks (request, (h.step request).1)) := by
  cases request with
  | reset => exact ⟨rfl, hf.tiles.le.trans hf.cursor_le⟩
  | alloc size =>
    by_cases hfits : h.cursor.toNat + blockSize size.toNat ≤ h.limit.toNat
    · obtain ⟨next, hnext, hstep⟩ := step_alloc_of_fits hfits
      rw [hstep]
      refine ⟨?_, ?_⟩
      · simp only [hnext]
        exact hf.tiles.concat (b := ⟨⟨h.cursor⟩, size⟩) rfl
      · simp only [hnext]
        exact hfits
    · rw [step_alloc_of_exceeds (Nat.lt_of_not_le hfits)]
      exact hf

theorem run (hf : Filled h blocks) (requests : List Request) :
    Filled (h.run requests).2 (h.blocksAfter blocks requests) := by
  induction requests generalizing h blocks with
  | nil => exact hf
  | cons request requests ih => exact ih (hf.step request)

theorem base_le_cursor (hf : Filled h blocks) : h.base ≤ h.cursor :=
  UInt64.le_iff_toNat_le.mpr hf.tiles.le

theorem toNat_used (hf : Filled h blocks) :
    h.used.toNat = (blocks.map fun b => blockSize b.size.toNat).sum := by
  have hused : h.used.toNat = h.cursor.toNat - h.base.toNat :=
    UInt64.toNat_sub_of_le _ _ hf.base_le_cursor
  rw [hused, hf.tiles.stop_eq, Nat.add_sub_cancel_left]

theorem pairwise_disjoint (hf : Filled h blocks) :
    blocks.Pairwise fun b c => Disjoint b.bytes c.bytes :=
  hf.tiles.pairwise.imp Block.disjoint_bytes

theorem bytes_subset (hf : Filled h blocks) {b : Block} (hb : b ∈ blocks) :
    b.bytes ⊆ Set.Ico h.base.toNat h.limit.toNat := by
  obtain ⟨hstart, hstop⟩ := hf.tiles.bounds b hb
  exact b.bytes_subset.trans (Set.Ico_subset_Ico hstart (hstop.trans hf.cursor_le))

/-- A heap without room has not handed out a block, and never will. -/
theorem step_alloc_of_limit_le (hf : Filled h blocks) (hlimit : h.limit ≤ h.base) (size : UInt64) :
    h.step (.alloc size) = (.refused, h) := by
  refine step_alloc_of_exceeds ?_
  have hpos := blockSize_pos size.toNat
  have hcursor := hf.tiles.le
  rw [UInt64.le_iff_toNat_le] at hlimit
  omega

end Filled

/-! ## The heap over a region -/

section

variable {base : Address} (capacity : UInt64)

/-- A base that can be rounded up starts the heap at the next multiple of eight, and only
the end of the word cuts its capacity. -/
theorem ofRegion_of_le (hbase : base.value.toNat ≤ 0xFFFFFFFFFFFFFFF8) :
    IsLeast {n | base.value.toNat ≤ n ∧ 8 ∣ n} (ofRegion base capacity).base.toNat ∧
      (ofRegion base capacity).limit.toNat =
        min ((ofRegion base capacity).base.toNat + capacity.toNat) 0xFFFFFFFFFFFFFFFF := by
  -- The last word that rounds up is a multiple of eight itself, so the result is a word.
  let start := UInt64.ofNat ((base.value.toNat + 7) / 8 * 8)
  have hstart : start.toNat = (base.value.toNat + 7) / 8 * 8 :=
    UInt64.toNat_ofNat_of_lt' (by change _ < 0x10000000000000000; omega)
  have hround : Word.roundUp? alignment base.value = some start := by
    rw [Word.roundUp?_eq_some_iff isPowerOfTwo_alignment, toNat_alignment]
    omega
  rw [ofRegion, hround]
  refine ⟨?_, Word.toNat_addClamped start capacity⟩
  simp only [hstart]
  exact isLeast_roundUp base.value.toNat

/-- Any other base starts a heap without room, and the capacity does not matter. -/
theorem ofRegion_of_lt (hbase : 0xFFFFFFFFFFFFFFF8 < base.value.toNat) :
    ofRegion base capacity = ⟨base.value, base.value, base.value⟩ := by
  have hround : Word.roundUp? alignment base.value = none := by
    rw [Option.eq_none_iff_forall_ne_some]
    intro start hstart
    rw [Word.roundUp?_eq_some_iff isPowerOfTwo_alignment, toNat_alignment] at hstart
    omega
  rw [ofRegion, hround]

theorem cursor_ofRegion (base : Address) :
    (ofRegion base capacity).cursor = (ofRegion base capacity).base := by
  unfold ofRegion
  split <;> rfl

/-- The limit of a new heap is not in front of its base, nor further behind than the capacity. -/
theorem bounds_limit_ofRegion (base : Address) :
    (ofRegion base capacity).base.toNat ≤ (ofRegion base capacity).limit.toNat ∧
      (ofRegion base capacity).limit.toNat ≤
        (ofRegion base capacity).base.toNat + capacity.toNat := by
  by_cases hbase : base.value.toNat ≤ 0xFFFFFFFFFFFFFFF8
  · have hlimit := (ofRegion_of_le capacity hbase).2
    have hword := (ofRegion base capacity).base.toNat_lt
    omega
  · rw [ofRegion_of_lt capacity (Nat.lt_of_not_le hbase)]
    exact ⟨Nat.le_refl _, Nat.le_add_right _ _⟩

theorem filled_ofRegion (base : Address) : Filled (ofRegion base capacity) [] where
  tiles := by rw [cursor_ofRegion]; rfl
  cursor_le := by
    rw [cursor_ofRegion]
    exact (bounds_limit_ofRegion capacity base).1

end

/-- **A heap hands out exactly what fits.**  It reaches from the first multiple of eight
in its region to the end of the region or of the word, and neither end ever moves.
Whatever was asked for before, a block is granted when it fits, counted in unbounded
numbers, and a request that is refused changes nothing.  The used bytes are those of the
blocks since the last reset, and no two of these blocks share a byte or leave the region.
A base that cannot be rounded up gives a heap that refuses every block. -/
theorem run_allocates_exactly (base : Address) (capacity : UInt64) (requests : List Request) :
    let empty := ofRegion base capacity
    let h := (empty.run requests).2
    let blocks := empty.live requests
    let footprint := fun size : UInt64 => 8 * (max size.toNat 1 ⌈/⌉ 8)
    (if base.value.toNat ≤ 0xFFFFFFFFFFFFFFF8 then
      IsLeast {n | base.value.toNat ≤ n ∧ 8 ∣ n} h.base.toNat ∧
        h.limit.toNat = min (h.base.toNat + capacity.toNat) 0xFFFFFFFFFFFFFFFF ∧
        8 ∣ h.cursor.toNat ∧
        ∀ size, if h.cursor.toNat + footprint size ≤ h.limit.toNat then
            ∃ next : UInt64, next.toNat = h.cursor.toNat + footprint size ∧
              h.step (.alloc size) = (.granted ⟨h.cursor⟩, { h with cursor := next })
          else h.step (.alloc size) = (.refused, h)
    else h.base = base.value ∧ ∀ size, h.step (.alloc size) = (.refused, h)) ∧
    (h.base = empty.base ∧ h.limit = empty.limit) ∧
    (h.base ≤ h.cursor ∧ h.cursor ≤ h.limit ∧
      h.used.toNat = (blocks.map fun b => footprint b.size).sum) ∧
    (blocks.Pairwise fun b c => Disjoint b.bytes c.bytes) ∧
    ∀ b ∈ blocks, b.bytes ⊆ Set.Ico h.base.toNat (h.base.toNat + capacity.toNat) := by
  intro empty h blocks footprint
  have hfootprint : ∀ size, footprint size = blockSize size.toNat := fun size =>
    (blockSize_eq_ceilDiv size.toNat).symm
  have hfilled : Filled h blocks := (filled_ofRegion capacity base).run requests
  obtain ⟨hbase, hlimit⟩ : h.base = empty.base ∧ h.limit = empty.limit :=
    region_run empty requests
  have hcursor : h.cursor ≤ h.limit := UInt64.le_iff_toNat_le.mpr hfilled.cursor_le
  simp only [hfootprint]
  refine ⟨?_, ⟨hbase, hlimit⟩, ⟨hfilled.base_le_cursor, hcursor, hfilled.toNat_used⟩,
    hfilled.pairwise_disjoint, ?_⟩
  · split
    · rename_i hround
      obtain ⟨hleast, hend⟩ := ofRegion_of_le capacity hround
      rw [← hbase] at hleast hend
      rw [← hlimit] at hend
      refine ⟨hleast, hend, hfilled.tiles.dvd_stop hleast.1.2, ?_⟩
      intro size
      split
      · rename_i hfits
        exact step_alloc_of_fits hfits
      · rename_i hexceeds
        exact step_alloc_of_exceeds (Nat.lt_of_not_le hexceeds)
    · -- No room at the start, and neither end moves: there is none later.
      rename_i hround
      have hregion : empty = _ := ofRegion_of_lt capacity (Nat.lt_of_not_le hround)
      have hstart : h.base = base.value := hbase.trans (congrArg Heap.base hregion)
      have hend : h.limit = base.value := hlimit.trans (congrArg Heap.limit hregion)
      refine ⟨hstart, hfilled.step_alloc_of_limit_le ?_⟩
      rw [hstart, hend]
      exact UInt64.le_refl base.value
  · intro b hb
    have hspan := (bounds_limit_ofRegion capacity base).2
    rw [← hlimit, ← hbase] at hspan
    exact (hfilled.bytes_subset hb).trans (Set.Ico_subset_Ico_right hspan)

-- Seven bytes lie between the last multiple of eight and the end of the word.
example : let h := ofRegion ⟨0xFFFFFFFFFFFFFFF8⟩ 64
    h.limit = 0xFFFFFFFFFFFFFFFF ∧ h.step (.alloc 1) = (.refused, h) := by decide

end CompressedRefs.Heap
