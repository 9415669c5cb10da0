import CompressedRefs.Text.Hex

/-!
# Reading what was written in base sixteen

Numbers are written with as few digits as they need, or with as many as a width asks for.
One reader reads both, and for it a zero in front makes no difference.  What the width buys is
order: texts of one width are in alphabetical order when their numbers are in order.

The order is seen from the front, where the reader starts, and not from the back, where the
writer appends.  So it is proved of any two texts of one length that can be read, and nothing
has to be known about the writer.

## Main definitions

* `Hex.alphabet` — the sixteen digits.
* `Hex.Spells` — a text is made of these, and reads as a number.

## Main statements

* `Hex.spells_digits`, `Hex.spells_padded` — what was written can be read.
* `Hex.head?_digits_eq_zero_iff` — zero alone starts with a zero.
* `Hex.padded_lt_padded_iff` — texts of one width are in the order of their numbers.
-/

namespace CompressedRefs.Hex

variable {c e : Char} {cs es : List Char} {d d' m n p q width : Nat}

/-! ## Digits -/

/-- The digits in base sixteen, in lower case and in the order of their values. -/
def alphabet : List Char := "0123456789abcdef".toList

theorem digitChar_mem_alphabet (h : d < 16) : d.digitChar ∈ alphabet := by
  have : ∀ i : Fin 16, i.val.digitChar ∈ alphabet := by decide
  exact this ⟨d, h⟩

/-- The digits stand in the alphabet in the order of their values. -/
theorem digitChar_lt_digitChar_iff (h : d < 16) (h' : d' < 16) :
    d.digitChar < d'.digitChar ↔ d < d' := by
  have : ∀ i j : Fin 16, i.val.digitChar < j.val.digitChar ↔ i.val < j.val := by decide
  exact this ⟨d, h⟩ ⟨d', h'⟩

/-- The reader takes the digits that the writer uses, and no others. -/
theorem digitValue?_eq_some_iff : digitValue? c = some d ↔ d < 16 ∧ c = d.digitChar := by
  constructor
  · intro h
    unfold digitValue? at h
    split at h
    · rename_i hc
      obtain rfl := Option.some.inj h
      have hlow : '0'.toNat ≤ c.toNat := hc.1
      have hhigh : c.toNat < '0'.toNat + 10 := Nat.lt_succ_of_le hc.2
      have hlt : c.toNat - '0'.toNat < 10 := by omega
      refine ⟨by omega, Char.toNat_inj.mp ?_⟩
      rw [Nat.toNat_digitChar_of_lt_ten hlt]
      exact (Nat.add_sub_cancel' hlow).symm
    · split at h
      · rename_i hc
        obtain rfl := Option.some.inj h
        have hlow : 'a'.toNat ≤ c.toNat := hc.1
        have hhigh : c.toNat < 'a'.toNat + 6 := Nat.lt_succ_of_le hc.2
        have hletter : ∀ i : Fin 6, (i.val + 10).digitChar.toNat = 'a'.toNat + i.val := by decide
        have hlt : c.toNat - 'a'.toNat < 6 := by omega
        refine ⟨by omega, Char.toNat_inj.mp ?_⟩
        rw [hletter ⟨_, hlt⟩]
        exact (Nat.add_sub_cancel' hlow).symm
      · cases h
  · rintro ⟨h, rfl⟩
    exact digitValue?_digitChar h

theorem lt_iff_of_digitValue? (h : digitValue? c = some d) (h' : digitValue? e = some d') :
    c < e ↔ d < d' := by
  obtain ⟨hd, rfl⟩ := digitValue?_eq_some_iff.mp h
  obtain ⟨hd', rfl⟩ := digitValue?_eq_some_iff.mp h'
  exact digitChar_lt_digitChar_iff hd hd'

theorem eq_iff_of_digitValue? (h : digitValue? c = some d) (h' : digitValue? e = some d') :
    c = e ↔ d = d' := by
  constructor
  · rintro rfl
    exact Option.some.inj (h.symm.trans h')
  · rintro rfl
    rw [(digitValue?_eq_some_iff.mp h).2, (digitValue?_eq_some_iff.mp h').2]

/-! ## Reading -/

/-- The text `cs` spells `n` in base sixteen. -/
structure Spells (cs : List Char) (n : Nat) : Prop where
  lowerCase : ∀ c ∈ cs, c ∈ alphabet
  read : read? cs = some n

/-- A text spells one number at most. -/
theorem Spells.unique (hm : Spells cs m) (hn : Spells cs n) : m = n :=
  Option.some.inj (hm.read.symm.trans hn.read)

/-- The first digit is worth sixteen times less than what was read in front of it. -/
theorem readFrom?_cons_eq_some_iff :
    readFrom? p (c :: cs) = some n ↔
      ∃ d, digitValue? c = some d ∧ readFrom? (16 * p + d) cs = some n := by
  rw [readFrom?, Option.bind_eq_some_iff]

/-- What can be read has lower-case digits only. -/
theorem mem_alphabet_of_readFrom? (h : readFrom? p cs = some n) : ∀ c ∈ cs, c ∈ alphabet := by
  induction cs generalizing p with
  | nil => simp
  | cons c cs ih =>
    obtain ⟨d, hd, hrest⟩ := readFrom?_cons_eq_some_iff.mp h
    obtain ⟨hlt, rfl⟩ := digitValue?_eq_some_iff.mp hd
    rw [List.forall_mem_cons]
    exact ⟨digitChar_mem_alphabet hlt, ih hrest⟩

theorem spells_of_readFrom? (hne : cs ≠ []) (h : readFrom? 0 cs = some n) : Spells cs n where
  lowerCase := mem_alphabet_of_readFrom? h
  read := by
    cases cs with
    | nil => exact absurd rfl hne
    | cons c cs => exact h

/-- Of two texts of one length, the first digits in which they differ decide, unless what was
read in front of them did. -/
theorem lt_iff_of_readFrom? (hlen : cs.length = es.length) (hm : readFrom? p cs = some m)
    (hn : readFrom? q es = some n) : m < n ↔ p < q ∨ p = q ∧ cs < es := by
  induction cs generalizing es p q with
  | nil =>
    obtain rfl := List.length_eq_zero_iff.mp hlen.symm
    obtain rfl := Option.some.inj hm
    obtain rfl := Option.some.inj hn
    simp
  | cons c cs ih =>
    cases es with
    | nil => cases hlen
    | cons e es =>
      obtain ⟨d, hd, hcs⟩ := readFrom?_cons_eq_some_iff.mp hm
      obtain ⟨d', hd', hes⟩ := readFrom?_cons_eq_some_iff.mp hn
      have hlt := (digitValue?_eq_some_iff.mp hd).1
      have hlt' := (digitValue?_eq_some_iff.mp hd').1
      rw [ih (Nat.succ.inj hlen) hcs hes, List.cons_lt_cons_iff, lt_iff_of_digitValue? hd hd',
        eq_iff_of_digitValue? hd hd']
      have hfront : 16 * p + d < 16 * q + d' ↔ p < q ∨ p = q ∧ d < d' := by omega
      have hsame : 16 * p + d = 16 * q + d' ↔ p = q ∧ d = d' := by omega
      rw [hfront, hsame, or_assoc, and_assoc, ← and_or_left]

/-! ## As few digits as needed -/

/-- What holds of single digits, and of a number with one more digit behind it, holds of the
text of every number. -/
theorem digits_induction {P : Nat → List Char → Prop}
    (digit : ∀ d, d < 16 → P d [d.digitChar])
    (append : ∀ n d, 0 < n → d < 16 → P n (digits n) →
      P (16 * n + d) (digits n ++ [d.digitChar])) (n : Nat) : P n (digits n) := by
  induction n using Nat.strongRecOn with
  | ind n ih =>
    by_cases h : n < 16
    · rw [digits_of_lt h]
      exact digit n h
    · have hdiv : 0 < n / 16 := by omega
      have hmod : n % 16 < 16 := Nat.mod_lt n (by decide)
      have hstep := append (n / 16) (n % 16) hdiv hmod (ih (n / 16) (by omega))
      rw [Nat.div_add_mod, ← digits_of_le (by omega)] at hstep
      exact hstep

/-- The reader takes back what the writer appends. -/
theorem readFrom?_digits (n : Nat) : readFrom? 0 (digits n) = some n := by
  induction n using digits_induction with
  | digit d hd => simp [readFrom?, hd]
  | append n d hn hd ih => simp [readFrom?_append, readFrom?, ih, hd]

theorem spells_digits (n : Nat) : Spells (digits n) n :=
  spells_of_readFrom? (digits_ne_nil n) (readFrom?_digits n)

/-- Zero alone starts with a zero. -/
theorem head?_digits_eq_zero_iff (n : Nat) : (digits n).head? = some '0' ↔ n = 0 := by
  induction n using digits_induction with
  | digit d hd => simp [Nat.digitChar_eq_zero]
  | append n d hn hd ih =>
    obtain ⟨c, cs, hdigits⟩ := List.exists_cons_of_ne_nil (digits_ne_nil n)
    rw [hdigits, List.head?_cons] at ih
    rw [hdigits, List.cons_append, List.head?_cons, ih]
    omega

theorem digits_inj : digits m = digits n ↔ m = n := by
  constructor
  · intro h
    exact (h ▸ spells_digits m).unique (spells_digits n)
  · exact congrArg digits

/-! ## As many digits as asked for -/

theorem length_padded (h : (digits n).length ≤ width) : (padded width n).length = width := by
  rw [padded, List.length_leftpad, Nat.max_eq_left h]

theorem readFrom?_replicate_zero (k : Nat) : readFrom? 0 (List.replicate k '0') = some 0 := by
  induction k with
  | zero => rfl
  | succ k ih => exact ih

theorem readFrom?_padded (width n : Nat) : readFrom? 0 (padded width n) = some n := by
  rw [padded, List.leftpad, readFrom?_append, readFrom?_replicate_zero, Option.bind_some,
    readFrom?_digits]

theorem padded_ne_nil (width n : Nat) : padded width n ≠ [] :=
  List.append_ne_nil_of_right_ne_nil _ (digits_ne_nil n)

theorem spells_padded (width n : Nat) : Spells (padded width n) n :=
  spells_of_readFrom? (padded_ne_nil width n) (readFrom?_padded width n)

theorem padded_inj : padded width m = padded width n ↔ m = n := by
  constructor
  · intro h
    exact (h ▸ spells_padded width m).unique (spells_padded width n)
  · exact congrArg (padded width)

/-- Texts of one width are in alphabetical order when their numbers are in order. -/
theorem padded_lt_padded_iff (hm : (digits m).length ≤ width) (hn : (digits n).length ≤ width) :
    padded width m < padded width n ↔ m < n := by
  have hlen : (padded width m).length = (padded width n).length := by
    rw [length_padded hm, length_padded hn]
  rw [lt_iff_of_readFrom? hlen (readFrom?_padded width m) (readFrom?_padded width n)]
  simp

end CompressedRefs.Hex
