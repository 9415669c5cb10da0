import CompressedRefs.IoError
import CompressedRefs.Window

/-!
# Errors of reference tables

Reading or writing references fails because the channel does, or because an
address in a table has no reference.  The second names the place in the table.

## Main definitions

* `WireError` — the two causes.
* `WireError.sourceMessage`, `WireError.message` — the cause in words, and with its setting.
-/

namespace CompressedRefs

/-- Why references could not be read or written. -/
inductive WireError
  /-- The channel failed. -/
  | io (error : IoError)
  /-- The address at `index` is not representable. -/
  | outOfRange (index : Nat) (source : RangeError)
  deriving DecidableEq

namespace WireError

/-- The cause alone. -/
def sourceMessage : WireError → String
  | io e => e.text
  | outOfRange _ source => source.message

/-- The cause, and which part of the work it stopped. -/
def message : WireError → String
  | io e => "I/O error: " ++ e.text
  | outOfRange index source => "address at index " ++ toString index ++ ": " ++ source.message

theorem message_io (e : IoError) : (io e).message = "I/O error: " ++ e.text := rfl

theorem message_outOfRange (index : Nat) (source : RangeError) :
    (outOfRange index source).message =
      "address at index " ++ toString index ++ ": " ++ source.message := rfl

end WireError

end CompressedRefs
