import CompressedRefs.Window

/-!
# The diagnostic of a refused address

Two lines that tell a person which address was refused and what the usual cause
is, and what becomes of a call that reports them: it returns, or it ends the
process.  The text goes to the standard error output, where a failure to write
has nowhere to be told, so none is.

## Main definitions

* `Diagnostic.pieces`, `Diagnostic.text` — the text, in the pieces it is written in and as a whole.
* `Outcome` — a return or the end of the process, each with what was written.
* `Diagnostic.report`, `Diagnostic.abort` — write it and go on, or write it and end the process.
-/

namespace CompressedRefs

/-- What becomes of a call that may end the process. -/
inductive Outcome (α : Type) where
  /-- The call gave a value and wrote `stderr`. -/
  | returned (value : α) (stderr : String)
  /-- The call wrote `stderr` and ended the process. -/
  | aborted (stderr : String)

/-- What a call wrote to the standard error output. -/
def Outcome.stderr {α : Type} : Outcome α → String
  | .returned _ s => s
  | .aborted s => s

namespace Diagnostic

/-- The second line, which is the same for every address. -/
def hint : String :=
  "This can occur if static data is placed after the first 32GB of virtual address space.\n"

/-- The diagnostic of an address, in the pieces it is written in. -/
def pieces (a : Address) : List String :=
  ["fatal error: pointer ", a.text, " too big or misaligned.\n", hint]

/-- The diagnostic of an address. -/
def text (a : Address) : String := String.join (pieces a)

theorem text_eq (a : Address) :
    text a = "fatal error: pointer " ++ a.text ++ " too big or misaligned.\n" ++ hint := by
  simp [text, pieces, String.join, String.append_assoc]

/-- Write the diagnostic and return. -/
def report (a : Address) : Outcome Unit := .returned () (text a)

/-- Write the diagnostic and end the process. -/
def abort {α : Type} (a : Address) : Outcome α := .aborted (text a)

end Diagnostic

end CompressedRefs
