import CompressedRefs.Proofs.Session.Views
import CompressedRefs.Samples.AddressStream
import Mathlib.Data.List.Forall2

/-!
# Where the words of a stream go

The words of a generator are numbered, and a stream uses them in order.  So the position of
a stream is a matter of counting: an address that is representable has taken one word, one
that is not has taken two, and how the requests were mixed does not matter.  How the generator
comes by its words does not matter either, as long as it obeys the law of next words; a
keystream does, and a draw of two words may begin at the end of one of its blocks.

A representable address keeps the word it is made of, as its reference.  An unrepresentable
one is refused whatever its two words are: an even draw is made odd, and an odd one is
moved behind the window.

## Main definitions

* `AddressStream.accepted`, `AddressStream.refused` — how many addresses of either class
  requests ask for.
* `Address.IsDraw`, `Address.IsRefusedDraw` — an address of either class, and its words.
* `AddressStream.Request.Draws` — the reply that a request must get at a position.

## Main statements

* `Address.not_representable_ofRefusedDraw` — no draw makes a representable address of the
  other class.
* `Generator.Deals.state_run` — the position after any requests.
* `Generator.Deals.draws_step` — the reply to any request.
* `AddressStream.run_spends` — all of it over a whole session.
-/

namespace CompressedRefs

namespace Address

/-! ## The two classes -/

/-- An even draw is made odd. -/
theorem ofRefusedDraw_of_even {raw : UInt64} (h : raw.toNat % 2 = 0) :
    (ofRefusedDraw raw).value.toNat % 2 = 1 := by
  have hraw : raw % 2 = 0 := by simpa [← UInt64.toNat_inj] using h
  rw [ofRefusedDraw, if_pos hraw, UInt64.toNat_or]
  exact Nat.or_mod_two_eq_one.mpr (.inr rfl)

/-- An odd draw is moved behind the window, to a multiple of eight. -/
theorem ofRefusedDraw_of_odd {raw : UInt64} (h : raw.toNat % 2 = 1) :
    (ofRefusedDraw raw).value.toNat % 8 = 0 ∧
      0x800000000 ≤ (ofRefusedDraw raw).value.toNat := by
  have hraw : ¬ raw % 2 = 0 := by simp [← UInt64.toNat_inj, h]
  have hlimit : 0x800000000 ≤ (raw ||| addressLimit).toNat := by
    rw [UInt64.toNat_or, toNat_addressLimit]
    exact Nat.right_le_or
  rw [ofRefusedDraw, if_neg hraw, Word.toNat_clearLow _ isPowerOfTwo_alignment, toNat_alignment]
  omega

/-- No draw makes a representable address of the other class. -/
theorem not_representable_ofRefusedDraw (raw : UInt64) :
    ¬ (ofRefusedDraw raw).Representable := by
  rintro ⟨haligned, hlimit⟩
  rcases Nat.mod_two_eq_zero_or_one raw.toNat with h | h
  · have := ofRefusedDraw_of_even h
    omega
  · have := (ofRefusedDraw_of_odd h).2
    omega

/-- The address is eight times a word, and the word is its reference. -/
structure IsDraw (word : UInt32) (a : Address) : Prop where
  value : a.value.toNat = 8 * word.toNat
  encode : a.encode = .ok ⟨word⟩

/-- The address is made of two words, the first the less significant, and is refused. -/
structure IsRefusedDraw (low high : UInt32) (a : Address) : Prop where
  value : ∃ raw : UInt64,
    raw.toNat = low.toNat + 0x100000000 * high.toNat ∧ a = ofRefusedDraw raw
  encode : a.encode = .error ⟨a⟩

theorem isDraw_decode (word : UInt32) : IsDraw word (Ref.decode ⟨word⟩) where
  value := Ref.toNat_value_decode ⟨word⟩
  encode := Ref.encode_decode ⟨word⟩

theorem isRefusedDraw_ofHalves (low high : UInt32) :
    IsRefusedDraw low high (ofRefusedDraw (Word.ofHalves low high)) where
  value := ⟨_, Word.toNat_ofHalves low high, rfl⟩
  encode := encode_of_not_representable (not_representable_ofRefusedDraw _)

end Address

namespace AddressStream

/-! ## Counting words -/

/-- How many representable addresses a request asks for. -/
def Request.accepted : Request → Nat
  | .representable => 1
  | .unrepresentable => 0
  | .take n => n

/-- How many unrepresentable addresses a request asks for. -/
def Request.refused : Request → Nat
  | .representable => 0
  | .unrepresentable => 1
  | .take _ => 0

/-- How many representable addresses requests ask for. -/
def accepted : List Request → Nat
  | [] => 0
  | request :: requests => request.accepted + accepted requests

/-- How many unrepresentable addresses requests ask for. -/
def refused : List Request → Nat
  | [] => 0
  | request :: requests => request.refused + refused requests

/-- The reply that a request must get from the words `w` at position `p`. -/
def Request.Draws (w : Nat → UInt32) (p : Nat) : Request → Reply → Prop
  | .representable, .one a => a.IsDraw (w p)
  | .unrepresentable, .one a => a.IsRefusedDraw (w p) (w (p + 1))
  | .take n, .many as => List.Forall₂ Address.IsDraw ((List.range n).map fun i => w (p + i)) as
  | _, _ => False

end AddressStream

namespace Generator

open AddressStream (Request accepted refused)

variable {σ : Type} {g : Generator σ} {w : Nat → UInt32} {state : Nat → σ}

/-- One request takes a word for each representable address and two for each other one. -/
theorem Deals.state_step (law : g.Deals w state) (p : Nat) (request : Request) :
    (g.step (state p) request).2 = state (p + (request.accepted + 2 * request.refused)) := by
  cases request with
  | representable => exact congrArg Prod.snd (law.representable p)
  | unrepresentable => exact congrArg Prod.snd (law.unrepresentable p)
  | take n => exact congrArg Prod.snd (law.takeRepresentable p n)

/-- The same holds of any requests, however they are mixed. -/
theorem Deals.state_run (law : g.Deals w state) (p : Nat) (requests : List Request) :
    (g.run (state p) requests).2 = state (p + (accepted requests + 2 * refused requests)) := by
  induction requests generalizing p with
  | nil => rfl
  | cons request requests ih =>
    have hcount : p + (accepted (request :: requests) + 2 * refused (request :: requests)) =
        p + (request.accepted + 2 * request.refused) +
          (accepted requests + 2 * refused requests) := by
      rw [accepted, refused]
      omega
    calc (g.run (state p) (request :: requests)).2
        = (g.run (g.step (state p) request).2 requests).2 := rfl
      _ = state (p + (request.accepted + 2 * request.refused) +
            (accepted requests + 2 * refused requests)) := by rw [law.state_step, ih]
      _ = state (p + (accepted (request :: requests) + 2 * refused (request :: requests))) := by
          rw [hcount]

/-! ## Many at once -/

/-- Several representable addresses at once are as many single ones. -/
theorem run_replicate_representable (g : Generator σ) (s : σ) (n : Nat) :
    g.run s (List.replicate n .representable) =
      ((g.takeRepresentable s n).1.map .one, (g.takeRepresentable s n).2) := by
  induction n generalizing s with
  | zero => rfl
  | succ n ih =>
    have hrest := ih (g.representable s).2
    rw [run] at hrest
    rw [List.replicate_succ, run, Session.run_cons]
    simp only [step, hrest]
    rfl

/-- Taking addresses in two goes is taking them in one. -/
theorem takeRepresentable_add (g : Generator σ) (s : σ) (m n : Nat) :
    g.takeRepresentable s (m + n) =
      ((g.takeRepresentable s m).1 ++ (g.takeRepresentable (g.takeRepresentable s m).2 n).1,
        (g.takeRepresentable (g.takeRepresentable s m).2 n).2) := by
  induction m generalizing s with
  | zero => rw [Nat.zero_add]; rfl
  | succ m ih =>
    rw [Nat.add_right_comm, takeRepresentable, ih]
    rfl

/-! ## Replies -/

/-- The reply to a request is made of the words at the position that it is met in. -/
theorem Deals.draws_step (law : g.Deals w state) (p : Nat) (request : Request) :
    request.Draws w p (g.step (state p) request).1 := by
  cases request with
  | representable =>
    rw [step, law.representable]
    exact Address.isDraw_decode _
  | unrepresentable =>
    rw [step, law.unrepresentable]
    exact Address.isRefusedDraw_ofHalves _ _
  | take n =>
    rw [step, law.takeRepresentable, Request.Draws, List.forall₂_map_left_iff,
      List.forall₂_map_right_iff, List.forall₂_same]
    exact fun i _ => Address.isDraw_decode _

end Generator

namespace AddressStream

/-- **A stream spends its words in order, one for a representable address and two for any
other.**  Whatever was asked for before, a request is served from the first word that was
not used: representable addresses are the words times eight and encode to them, and the
others depend on their two words alone and are refused.  Many at once are as many in turn.
Nothing is asked of the generator but the law of next words, which keystreams obey. -/
theorem run_spends {σ : Type} {g : Generator σ} {w : Nat → UInt32} {state : Nat → σ}
    (law : g.Deals w state) (requests : List Request) :
    let s := (g.run (state 0) requests).2
    let p := accepted requests + 2 * refused requests
    s = state p ∧
    (∀ (request : Request) (rest : List Request), ∃ reply,
      (g.run (state 0) (requests ++ request :: rest)).1[requests.length]? = some reply ∧
        request.Draws w p reply) ∧
    (∀ n, g.run s (List.replicate n .representable) =
      ((g.takeRepresentable s n).1.map .one, (g.takeRepresentable s n).2)) ∧
    (∀ m n, g.takeRepresentable s (m + n) =
      ((g.takeRepresentable s m).1 ++ (g.takeRepresentable (g.takeRepresentable s m).2 n).1,
        (g.takeRepresentable (g.takeRepresentable s m).2 n).2)) ∧
    ∀ raw, (Address.ofRefusedDraw raw).encode = .error ⟨.ofRefusedDraw raw⟩ := by
  intro s p
  have hstate : s = state p := by
    have hrun := law.state_run 0 requests
    rwa [Nat.zero_add] at hrun
  refine ⟨hstate, ?_, g.run_replicate_representable s, g.takeRepresentable_add s,
    fun raw => Address.encode_of_not_representable (Address.not_representable_ofRefusedDraw raw)⟩
  intro request rest
  refine ⟨_, Session.answer_at g.step (state 0) requests request rest, ?_⟩
  have hdraws := law.draws_step p request
  rwa [← hstate] at hdraws

/-- The stream of a seed, with a draw of the last word of one block and the first of the next. -/
theorem run_spends_of_straddling :
    let s := ofSeed 7
    let w := (Keystream.Key.ofSeed 7).word
    generator.Deals w (fun p => ⟨.ofSeed 7, p⟩) ∧
      (s.run [.take 15, .unrepresentable]).2.position = 17 ∧
      ∃ a, (s.run [.take 15, .unrepresentable, .take 2]).1[1]? = some (.one a) ∧
        a.IsRefusedDraw (w 15) (w 16) := by
  intro s w
  have law := deals (.ofSeed 7)
  obtain ⟨hplace, -⟩ := run_spends law [.take 15, .unrepresentable]
  obtain ⟨-, hreply, -⟩ := run_spends law [.take 15]
  obtain ⟨reply, hanswer, hdraws⟩ := hreply .unrepresentable [.take 2]
  cases reply with
  | one a => exact ⟨law, congrArg position hplace, a, hanswer, hdraws⟩
  | many as => exact hdraws.elim

end AddressStream

end CompressedRefs
