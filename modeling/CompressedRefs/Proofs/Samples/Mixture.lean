import CompressedRefs.Proofs.Samples.Positions
import CompressedRefs.Proofs.Wire.RoundTrip
import CompressedRefs.Samples.Workload

/-!
# The shape of the fixed workloads

A mixed workload is drawn from one generator as it goes along, so the place of each address in
its words depends on how many bad ones are in front of it.  Since these come at a fixed
distance, their number is a quotient, and the address at an index can be told without those
before it.  Everything else about a workload follows from that: how many of its addresses are
bad and where a table of them stops, that a longer workload starts with a shorter one, and
that one which is too short for a bad address is the good one.

The period zero stands for no bad address at all, and the period one for nothing else.

## Main definitions

* `Workload.offset` — the place in the words of the address at an index.
* `Workload.addressAt` — the address at an index.

## Main statements

* `Workload.mixedFrom_eq` — a mixed workload, address by address.
* `Workload.countP_refused_mixedFrom`, `Workload.firstRefused_mixedFrom` — its bad addresses, and
  the first.
* `Workload.advertised_shape` — all of it.
-/

namespace CompressedRefs.Workload

variable {k i n : Nat}

/-! ## Places in the sequence of words -/

/-- The place of the first word that the address at an index is made of: each address in front
of it has taken one word, and each bad one another. -/
def offset (k i : Nat) : Nat := if k = 0 then i else i + i / k

/-- The last index of every period is the one whose successor the period divides. -/
theorem isBad_iff : isBad k i = true ↔ k ≠ 0 ∧ (i + 1) % k = 0 := by
  simp only [isBad, Bool.and_eq_true, bne_iff_ne, beq_iff_eq]
  refine and_congr_right fun hk => ?_
  -- A remainder grows by one with the number, or it was the last and starts again.
  have hlt := Nat.mod_lt i (Nat.pos_of_ne_zero hk)
  have hsucc : (i + 1) % k = if i % k + 1 = k then 0 else i % k + 1 := by
    rw [← Nat.mod_add_mod]
    split
    · rename_i hlast
      rw [hlast, Nat.mod_self]
    · exact Nat.mod_eq_of_lt (by omega)
  split at hsucc <;> omega

example : (List.range 7).filter (isBad 3) = [2, 5] := by decide

/-- Behind a bad address the place moves by two words, behind any other by one. -/
theorem offset_succ (k i : Nat) :
    offset k (i + 1) = offset k i + if isBad k i then 2 else 1 := by
  by_cases hk : k = 0
  · simp [offset, isBad, hk]
  · have hbad : isBad k i = true ↔ k ∣ i + 1 := by
      rw [isBad_iff, and_iff_right hk, Nat.dvd_iff_mod_eq_zero]
    simp only [offset, if_neg hk, Nat.succ_div, hbad]
    split <;> omega

@[simp] theorem offset_zero (k : Nat) : offset k 0 = 0 := by
  simp [offset]

/-- One index in `k` is that of a bad address. -/
theorem countP_isBad_range (n k : Nat) :
    (List.range n).countP (isBad k) = if k = 0 then 0 else n / k := by
  induction n with
  | zero => simp
  | succ n ih =>
    rw [List.range_succ, List.countP_append, List.countP_singleton, ih, Nat.succ_div]
    by_cases hk : k = 0
    · simp [hk, isBad]
    · simp [hk, isBad_iff, Nat.dvd_iff_mod_eq_zero]

/-- No bad address stands in the first period. -/
theorem offset_of_lt (h : k = 0 ∨ i < k) : offset k i = i := by
  rcases h with rfl | h
  · rfl
  · simp [offset, Nat.div_eq_of_lt h]

/-! ## Addresses -/

/-- The address at an index of a mixed workload that is drawn from the words `w`. -/
def addressAt (w : Nat → UInt32) (k i : Nat) : Address :=
  if isBad k i then .ofRefusedDraw (Word.ofHalves (w (offset k i)) (w (offset k i + 1)))
  else Ref.decode ⟨w (offset k i)⟩

/-- Each class of addresses stays on its side of the line. -/
theorem representable_addressAt_iff (w : Nat → UInt32) (k i : Nat) :
    (addressAt w k i).Representable ↔ isBad k i = false := by
  rw [addressAt]
  split
  · rename_i hbad
    simp [hbad, Address.not_representable_ofRefusedDraw]
  · rename_i hgood
    simp [hgood, Ref.representable_decode]

/-- An address is refused just when it stands at the end of a period. -/
theorem isOk_encode_addressAt (w : Nat → UInt32) (k i : Nat) :
    (addressAt w k i).encode.isOk = !isBad k i := by
  cases hbad : isBad k i with
  | true =>
    have hrefused := mt (representable_addressAt_iff w k i).mp (by simp [hbad])
    rw [Address.encode_of_not_representable hrefused]
    rfl
  | false =>
    rw [Address.encode_of_representable ((representable_addressAt_iff w k i).mpr hbad)]
    rfl

/-- The words that the address at an index is drawn from. -/
theorem draws_addressAt (w : Nat → UInt32) (k i : Nat) :
    if k ≠ 0 ∧ (i + 1) % k = 0 then
      (addressAt w k i).IsRefusedDraw (w (offset k i)) (w (offset k i + 1))
    else (addressAt w k i).IsDraw (w (offset k i)) := by
  split
  · rename_i h
    rw [addressAt, if_pos (isBad_iff.mpr h)]
    exact Address.isRefusedDraw_ofHalves _ _
  · rename_i h
    rw [addressAt, if_neg (mt isBad_iff.mp h)]
    exact Address.isDraw_decode _

section Law

variable {σ : Type} {g : Generator σ} {w : Nat → UInt32} {state : Nat → σ}

/-- A workload from any index on.  The generator is at the place of each address when its turn
comes, since drawing an address moves it as `offset_succ` says. -/
theorem mixedFrom_offset (law : g.Deals w state) (k index n : Nat) :
    mixedFrom g k index (state (offset k index)) n =
      (List.range' index n).map (addressAt w k) := by
  induction n generalizing index with
  | zero => rfl
  | succ n ih =>
    rw [mixedFrom, List.range'_succ, List.map_cons, ← ih (index + 1), offset_succ, addressAt]
    cases isBad k index with
    | true =>
      simp only [if_true, law.unrepresentable]
    | false =>
      simp only [Bool.false_eq_true, if_false, law.representable]

/-- A mixed workload, address by address. -/
theorem mixedFrom_eq (law : g.Deals w state) (k n : Nat) :
    mixedFrom g k 0 (state 0) n = (List.range n).map (addressAt w k) := by
  have h := mixedFrom_offset law k 0 n
  rwa [offset_zero, ← List.range_eq_range'] at h

theorem getElem?_mixedFrom (law : g.Deals w state) (k : Nat) (h : i < n) :
    (mixedFrom g k 0 (state 0) n)[i]? = some (addressAt w k i) := by
  simp [mixedFrom_eq law, h]

theorem representableFrom_eq (law : g.Deals w state) (n : Nat) :
    representableFrom g (state 0) n = (List.range n).map fun i => Ref.decode ⟨w i⟩ := by
  rw [representableFrom, law.takeRepresentable]
  simp only [Nat.zero_add]

theorem representable_of_mem_representableFrom (law : g.Deals w state) {a : Address}
    (ha : a ∈ representableFrom g (state 0) n) : a.Representable := by
  rw [representableFrom_eq law] at ha
  obtain ⟨i, -, rfl⟩ := List.mem_map.mp ha
  exact Ref.representable_decode _

/-! ## The bad addresses of a workload -/

/-- One address in `k` is refused. -/
theorem countP_refused_mixedFrom (law : g.Deals w state) (k n : Nat) :
    (mixedFrom g k 0 (state 0) n).countP (fun a => !a.encode.isOk) =
      if k = 0 then 0 else n / k := by
  rw [← countP_isBad_range, mixedFrom_eq law, List.countP_map]
  congr 1
  funext i
  rw [Function.comp_apply, isOk_encode_addressAt, Bool.not_not]

/-- A longer workload starts with a shorter one. -/
theorem mixedFrom_isPrefix_of_le (law : g.Deals w state) {m : Nat} (k : Nat) (h : n ≤ m) :
    mixedFrom g k 0 (state 0) n <+: mixedFrom g k 0 (state 0) m := by
  have hrange : (List.range m).take n = List.range n := by
    rw [List.take_range, Nat.min_eq_left h]
  rw [mixedFrom_eq law, mixedFrom_eq law, ← hrange, List.map_take]
  exact List.take_prefix n _

/-- A workload that is too short for a bad address is the good one. -/
theorem mixedFrom_eq_representableFrom (law : g.Deals w state) (h : k = 0 ∨ n < k) :
    mixedFrom g k 0 (state 0) n = representableFrom g (state 0) n := by
  rw [mixedFrom_eq law, representableFrom_eq law]
  apply List.map_congr_left
  intro i hi
  have hi' : k = 0 ∨ i + 1 < k := by
    have := List.mem_range.mp hi
    omega
  have hgood : isBad k i = false := by
    rw [← Bool.not_eq_true, isBad_iff]
    rintro ⟨hk, hmod⟩
    rw [Nat.mod_eq_of_lt (hi'.resolve_left hk)] at hmod
    omega
  rw [addressAt, if_neg (by simp [hgood]), offset_of_lt (by omega)]

theorem refused_getElem_mixedFrom (law : g.Deals w state)
    (h : i < (mixedFrom g k 0 (state 0) n).length) :
    decide (¬ (mixedFrom g k 0 (state 0) n)[i].Representable) = isBad k i := by
  simp [mixedFrom_eq law, representable_addressAt_iff]

/-- The first bad address stands at the end of the first period. -/
theorem firstRefused_mixedFrom (law : g.Deals w state) (k n : Nat) :
    Wire.firstRefused (mixedFrom g k 0 (state 0) n) = if 1 ≤ k ∧ k ≤ n then k - 1 else n := by
  split
  · rename_i h
    have hlen : k - 1 < (mixedFrom g k 0 (state 0) n).length := by
      rw [length_mixedFrom]
      omega
    rw [Wire.firstRefused, List.findIdx_eq hlen, refused_getElem_mixedFrom law]
    constructor
    · rw [isBad_iff, Nat.sub_add_cancel h.1, Nat.mod_self]
      exact ⟨by omega, rfl⟩
    · intro j hj
      have hmod : (j + 1) % k = j + 1 := Nat.mod_eq_of_lt (by omega)
      rw [refused_getElem_mixedFrom law, ← Bool.not_eq_true, isBad_iff, hmod]
      omega
  · rename_i h
    have hgood := mixedFrom_eq_representableFrom law (show k = 0 ∨ n < k by omega)
    rw [hgood, Wire.firstRefused_eq_length fun a ha =>
      representable_of_mem_representableFrom law ha, length_representableFrom]

/-- Written as a table to a channel that cannot fail, a workload stops at its first bad address. -/
theorem step_writeAddresses_mixedFrom (law : g.Deals w state) {b : Wire.Buffer}
    (hb : Wire.Harmless b.writeScript) (order : ByteOrder) (k n : Nat) :
    let as := mixedFrom g k 0 (state 0) n
    let answer := (b.step (.writeAddresses order as)).1
    if 1 ≤ k ∧ k ≤ n then
      answer.wrote.length = 4 * (k - 1) ∧
        ∃ a, as[k - 1]? = some a ∧ answer.result = .error (.outOfRange (k - 1) ⟨a⟩)
    else answer.wrote.length = 4 * n ∧ answer.result = .ok .written := by
  intro as answer
  obtain ⟨rest, -, hstep⟩ := Wire.Buffer.step_writeAddresses_of_harmless hb order as
  have hlen : answer.wrote.length = 4 * Wire.firstRefused as :=
    (congrArg (·.1.wrote.length) hstep).trans (Wire.length_acceptedBytes order _)
  have hresult : answer.result = Wire.tableResult as := congrArg (·.1.result) hstep
  have hfirst : Wire.firstRefused as = _ := firstRefused_mixedFrom law k n
  split
  · rename_i h
    rw [if_pos h] at hfirst
    have ha : as[k - 1]? = _ := getElem?_mixedFrom law k (show k - 1 < n by omega)
    rw [hlen, hresult, Wire.tableResult, hfirst, ha]
    exact ⟨rfl, _, rfl, rfl⟩
  · rename_i h
    rw [if_neg h] at hfirst
    have hall : Wire.firstRefused as = as.length := by
      rw [hfirst, length_mixedFrom]
    rw [hlen, hresult, Wire.tableResult_eq_written hall, hfirst]
    exact ⟨rfl, rfl⟩

/-! ## References -/

/-- No reference is dropped, since every address of the good workload has one. -/
theorem refsFrom_eq (law : g.Deals w state) (n : Nat) :
    refsFrom g (state 0) n = (representableFrom g (state 0) n).map Address.truncate := by
  have hkept : ∀ a ∈ representableFrom g (state 0) n, a.encode.toOption = some a.truncate := by
    intro a ha
    rw [Address.encode_of_representable (representable_of_mem_representableFrom law ha)]
    rfl
  rw [refsFrom, List.filterMap_congr hkept, List.filterMap_eq_map']

theorem map_decode_refsFrom (law : g.Deals w state) (n : Nat) :
    (refsFrom g (state 0) n).map Ref.decode = representableFrom g (state 0) n := by
  rw [refsFrom_eq law]
  exact Address.map_decode_map_truncate fun a ha => representable_of_mem_representableFrom law ha

end Law

/-! ## Together -/

/-- **The fixed workloads have the shape that they are advertised with.**  The last address of
every `k` is refused and no other is, and none is for `k = 0`; so the refused ones are as many
as division gives.  An address is drawn from the words that those in front of it have left,
one for each and one more for each refused one.  More addresses begin with the same ones, and
too few for a refused one are the good workload.  Written as a table, a workload fails if and
only if it has a refused address, at the first.  The workload of references has one for each
address of the good workload, in order.  All of it holds of any generator that obeys the law
of next words, so of the keystream that the fixed seed starts. -/
theorem advertised_shape {σ : Type} {g : Generator σ} {w : Nat → UInt32} {state : Nat → σ}
    (law : g.Deals w state) (n k : Nat) :
    let mixed m := mixedFrom g k 0 (state 0) m
    let good := representableFrom g (state 0) n
    let refs := refsFrom g (state 0) n
    (mixed n).length = n ∧
    (∀ i < n, ∃ a, (mixed n)[i]? = some a ∧
      (a.encode.isOk = false ↔ k ≠ 0 ∧ (i + 1) % k = 0) ∧
      if k ≠ 0 ∧ (i + 1) % k = 0 then a.IsRefusedDraw (w (offset k i)) (w (offset k i + 1))
      else a.IsDraw (w (offset k i))) ∧
    (mixed n).countP (fun a => !a.encode.isOk) = (if k = 0 then 0 else n / k) ∧
    (∀ m, n ≤ m → mixed n <+: mixed m) ∧
    (k = 0 ∨ n < k → mixed n = good) ∧
    (∀ (order : ByteOrder) (b : Wire.Buffer), Wire.Harmless b.writeScript →
      let answer := (b.step (.writeAddresses order (mixed n))).1
      if 1 ≤ k ∧ k ≤ n then
        answer.wrote.length = 4 * (k - 1) ∧
          ∃ a, (mixed n)[k - 1]? = some a ∧ answer.result = .error (.outOfRange (k - 1) ⟨a⟩)
      else answer.wrote.length = 4 * n ∧ answer.result = .ok .written) ∧
    refs.length = n ∧ refs.map Ref.decode = good := by
  refine ⟨length_mixedFrom g k 0 (state 0) n, ?_, countP_refused_mixedFrom law k n,
    fun m => mixedFrom_isPrefix_of_le law k, mixedFrom_eq_representableFrom law,
    fun order b hb => step_writeAddresses_mixedFrom law hb order k n, ?_,
    map_decode_refsFrom law n⟩
  · intro i hi
    refine ⟨_, getElem?_mixedFrom law k hi, ?_, draws_addressAt w k i⟩
    rw [isOk_encode_addressAt, Bool.not_eq_false', isBad_iff]
  · rw [refsFrom_eq law, List.length_map, length_representableFrom]

/-- Two periods of three addresses and one of the next, from the fixed seed: two are refused, a
table stops behind the first two, and one address less than a period is good throughout. -/
theorem advertised_shape_of_seven :
    let b := Wire.Buffer.ofInput [] [.upTo 3, .upTo 1] []
    let answer := (b.step (.writeAddresses .big (mixed 7 3))).1
    AddressStream.generator.Deals (Keystream.Key.ofSeed seed).word
        (fun p => ⟨.ofSeed seed, p⟩) ∧
      Wire.Harmless b.writeScript ∧ (mixed 7 3).countP (fun a => !a.encode.isOk) = 2 ∧
      answer.wrote.length = 8 ∧
      (∃ a, (mixed 7 3)[2]? = some a ∧ answer.result = .error (.outOfRange 2 ⟨a⟩)) ∧
      mixed 7 3 <+: mixed 8 3 ∧ mixed 2 3 = representable 2 ∧
      (refs 7).map Ref.decode = representable 7 := by
  intro b answer
  have law := AddressStream.deals (.ofSeed seed)
  have hb : Wire.Harmless b.writeScript := by decide
  obtain ⟨-, -, hcount, hfront, -, hwrite, -, hrefs⟩ := advertised_shape law 7 3
  obtain ⟨-, -, -, -, hgood, -⟩ := advertised_shape law 2 3
  obtain ⟨hlen, hstop⟩ := hwrite .big b hb
  exact ⟨law, hb, hcount, hlen, hstop, hfront 8 (by decide), hgood (by decide), hrefs⟩

end CompressedRefs.Workload
