import CompressedRefs.Session
import CompressedRefs.Window

/-!
# Bump heaps

A heap over a range of addresses that hands out blocks from the front and never
takes one back, except all at once.  No memory stands behind it: what counts is
where its blocks lie.  Blocks start at multiples of eight, so whether a block is
representable depends only on where the heap was placed.

Sizes and places are words and every sum of them is checked, so a heap may reach
up to the end of the word.  A base that cannot be rounded up gives a heap that
has no room at all.

## Main definitions

* `Heap`, `Heap.ofRegion` — a heap, and the empty one over a region.
* `Heap.alloc?`, `Heap.reset` — take a block, and forget all blocks.
* `Heap.used` — how many bytes were handed out.
* `Heap.blockSize` — how many bytes a block takes up.
* `Heap.Request`, `Heap.Reply`, `Heap.step`, `Heap.run` — a session with a heap.
-/

namespace CompressedRefs

/-- A heap that hands out blocks from the front. -/
@[ext] structure Heap where
  /-- Where the first block starts. -/
  base : UInt64
  /-- Where the next block starts. -/
  cursor : UInt64
  /-- Where the last block has to end. -/
  limit : UInt64
  deriving DecidableEq

namespace Heap

/-- The heap without blocks that starts at the first multiple of eight not below
`base` and spans `capacity` bytes, or as many as there are. -/
def ofRegion (base : Address) (capacity : UInt64) : Heap :=
  match Word.roundUp? alignment base.value with
  | none => ⟨base.value, base.value, base.value⟩
  | some start => ⟨start, start, Word.addClamped start capacity⟩

/-- The bytes that a block of a size takes up: a multiple of eight, and never
zero, since an empty block counts as one byte. -/
def footprint? (size : UInt64) : Option UInt64 :=
  Word.roundUp? alignment (if size = 0 then 1 else size)

/-- Take a block, if there is room for it. -/
def alloc? (h : Heap) (size : UInt64) : Option (Address × Heap) :=
  (footprint? size).bind fun bytes =>
    (Word.add? h.cursor bytes).bind fun next =>
      if h.limit < next then none else some (⟨h.cursor⟩, { h with cursor := next })

/-- Forget every block. -/
def reset (h : Heap) : Heap := { h with cursor := h.base }

/-- How many bytes were handed out. -/
def used (h : Heap) : UInt64 := h.cursor - h.base

/-- Where the heap starts. -/
def start (h : Heap) : Address := ⟨h.base⟩

/-- The bytes that a block of a size takes up, in unbounded numbers: the least
multiple of eight that holds it, and never zero. -/
def blockSize (size : Nat) : Nat := ((size - 1) / 8 + 1) * 8

/-- A footprint is exact: it is there when it fits in a word, and only then. -/
theorem footprint?_eq_some_iff {size bytes : UInt64} :
    footprint? size = some bytes ↔ bytes.toNat = blockSize size.toNat := by
  have hsize : (if size = 0 then 1 else size).toNat = size.toNat - 1 + 1 := by
    split
    · rename_i h; subst h; rfl
    · rename_i h
      have : size.toNat ≠ 0 := fun h' => h (UInt64.toNat_inj.mp h')
      omega
  have hbytes := bytes.toNat_lt
  rw [footprint?, Word.roundUp?_eq_some_iff isPowerOfTwo_alignment, hsize, toNat_alignment, blockSize]
  omega

/-- There is no room exactly when the block would end behind the limit, counted
in unbounded numbers. -/
theorem alloc?_eq_none_iff {h : Heap} {size : UInt64} :
    h.alloc? size = none ↔ h.limit.toNat < h.cursor.toNat + blockSize size.toNat := by
  have hlimit := h.limit.toNat_lt
  unfold alloc?
  cases hbytes : footprint? size with
  | none =>
    have hnone : ∀ bytes : UInt64, bytes.toNat ≠ blockSize size.toNat := fun bytes hb => by
      rw [← footprint?_eq_some_iff, hbytes] at hb
      exact absurd hb (by simp)
    have hlarge : 0x10000000000000000 ≤ blockSize size.toNat := by
      refine Nat.le_of_not_lt fun hlt => hnone (UInt64.ofNat (blockSize size.toNat)) ?_
      exact UInt64.toNat_ofNat_of_lt' hlt
    simp only [Option.bind_none, true_iff]
    omega
  | some bytes =>
    rw [footprint?_eq_some_iff] at hbytes
    rw [Option.bind_some]
    cases hnext : Word.add? h.cursor bytes with
    | none =>
      rw [Word.add?_eq_none_iff] at hnext
      simp only [Option.bind_none, true_iff]
      omega
    | some next =>
      rw [Word.add?_eq_some_iff] at hnext
      rw [Option.bind_some, ← hbytes, ← hnext, ← UInt64.lt_iff_toNat_lt]
      split <;> simp_all

/-- A block starts where the cursor was, and moves the cursor behind itself. -/
theorem alloc?_eq_some {h h' : Heap} {size : UInt64} {a : Address}
    (ha : h.alloc? size = some (a, h')) :
    a = ⟨h.cursor⟩ ∧ h'.base = h.base ∧ h'.limit = h.limit ∧
      h'.cursor.toNat = h.cursor.toNat + blockSize size.toNat := by
  unfold alloc? at ha
  obtain ⟨bytes, hbytes, ha⟩ := Option.bind_eq_some_iff.mp ha
  obtain ⟨next, hnext, ha⟩ := Option.bind_eq_some_iff.mp ha
  rw [footprint?_eq_some_iff] at hbytes
  rw [Word.add?_eq_some_iff] at hnext
  split at ha
  · exact absurd ha (by simp)
  · obtain ⟨rfl, rfl⟩ := Prod.mk.inj (Option.some.inj ha)
    exact ⟨rfl, rfl, rfl, by rw [hnext, hbytes]⟩

/-! ## Sessions -/

/-- A request to a heap. -/
inductive Request
  /-- Take a block of a size. -/
  | alloc (size : UInt64)
  /-- Forget every block. -/
  | reset

/-- The reply of a heap. -/
inductive Reply
  /-- The block that starts here. -/
  | granted (a : Address)
  /-- There is no room for such a block. -/
  | refused
  /-- Every block is forgotten. -/
  | cleared
  deriving DecidableEq

/-- Answer one request, and give the heap for the next. -/
def step (h : Heap) : Request → Reply × Heap
  | .alloc size =>
    match h.alloc? size with
    | none => (.refused, h)
    | some (a, h') => (.granted a, h')
  | .reset => (.cleared, h.reset)

/-- Answer requests in turn, each reply with the heap after it. -/
def run (h : Heap) (requests : List Request) : List (Reply × Heap) × Heap :=
  Session.run (fun h i => (h.step i, (h.step i).2)) h requests

end Heap

end CompressedRefs
