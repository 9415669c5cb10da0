/-!
# Numbers in base sixteen

Numbers written in lower-case hexadecimal digits, as short as they go or filled
with zeros to a width, and the reader of such digits.  The reader takes lower
case only and no empty text, so it accepts what the writers produce and leading
zeros, and nothing else.

## Main definitions

* `Hex.digits` — the digits of a number, without a leading zero; zero is `0`.
* `Hex.padded` — the same, filled with zeros from the left.
* `Hex.read?` — the number that digits spell.
-/

namespace CompressedRefs.Hex

/-- The digits of `n` in base sixteen, the most significant first.  No digit
comes before the first that counts; zero is a single digit. -/
def digits (n : Nat) : List Char := Nat.toDigits 16 n

/-- The digits of `n`, filled with zeros from the left up to `width`. -/
def padded (width n : Nat) : List Char := (digits n).leftpad width '0'

/-- The value of a lower-case digit. -/
def digitValue? (c : Char) : Option Nat :=
  if '0' ≤ c ∧ c ≤ '9' then some (c.toNat - '0'.toNat)
  else if 'a' ≤ c ∧ c ≤ 'f' then some (c.toNat - 'a'.toNat + 10)
  else none

/-- The number that `cs` spells after digits worth `acc`. -/
def readFrom? (acc : Nat) : List Char → Option Nat
  | [] => some acc
  | c :: cs => (digitValue? c).bind fun d => readFrom? (16 * acc + d) cs

/-- The number that lower-case hexadecimal digits spell; no digits spell none. -/
def read? : List Char → Option Nat
  | [] => none
  | c :: cs => readFrom? 0 (c :: cs)

theorem digits_of_lt {n : Nat} (h : n < 16) : digits n = [n.digitChar] :=
  Nat.toDigits_of_lt_base h

theorem digits_of_le {n : Nat} (h : 16 ≤ n) :
    digits n = digits (n / 16) ++ [(n % 16).digitChar] :=
  Nat.toDigits_of_base_le (by decide) h

theorem digits_ne_nil (n : Nat) : digits n ≠ [] := Nat.toDigits_ne_nil

@[simp] theorem digitValue?_digitChar {d : Nat} (h : d < 16) : digitValue? d.digitChar = some d := by
  have : ∀ i : Fin 16, digitValue? i.val.digitChar = some i.val := by decide
  exact this ⟨d, h⟩

theorem readFrom?_append (acc : Nat) (cs ds : List Char) :
    readFrom? acc (cs ++ ds) = (readFrom? acc cs).bind fun n => readFrom? n ds := by
  induction cs generalizing acc with
  | nil => rfl
  | cons c cs ih =>
    simp only [List.cons_append, readFrom?]
    cases digitValue? c with
    | none => rfl
    | some d => exact ih _

end CompressedRefs.Hex
