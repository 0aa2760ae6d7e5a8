import FormulaMarkup.Formula.Diagnostic
import FormulaMarkup.Node
import FormulaMarkup.Text.Blank

/-!
# FormulaMarkup — readings and readers of atoms

A source is read atom by atom, and an atom may contain expressions, which consist of atoms again.
The recursion is cut in two: whatever an atom contains is read by a given **`AtomReader`**, so that
every loop over the input is an ordinary recursion on its length.

* **`Reading`** — what was read, the input after it, and the guesses on the way.
* **`AtomReader`** — a reader of atoms; what it reads is never empty.
* **`readArgument`** — the next atom, or an empty row where none starts.

Reading consumes the input from the front: what a reader leaves is always a suffix of what it was
given.
-/

namespace FormulaMarkup.Formula

open Text

/-- What was read: its value, the input after it, and the guesses on the way. -/
structure Reading (α : Type) where
  value : α
  rest : List Char
  log : List Diagnostic

namespace Reading

variable {α β : Type}

/-- The same reading with another value. -/
def map (f : α → β) (r : Reading α) : Reading β := ⟨f r.value, r.rest, r.log⟩

/-- The same reading after others that made these guesses. -/
def after (log : List Diagnostic) (r : Reading α) : Reading α := ⟨r.value, r.rest, log ++ r.log⟩

@[simp] theorem rest_map (f : α → β) (r : Reading α) : (r.map f).rest = r.rest := rfl

/-- What is left does not depend on what has been reported before. -/
@[simp] theorem rest_after (log : List Diagnostic) (r : Reading α) :
    (r.after log).rest = r.rest := rfl

end Reading

/-- A reader of atoms.  It answers nothing where no atom starts, and otherwise consumes at least one
character, so that whatever is built on it ends. -/
structure AtomReader where
  read : List Char → Option (Reading Formula)
  consumes : ∀ {s : List Char} {r : Reading Formula}, read s = some r →
    r.rest <:+ s ∧ r.rest.length < s.length

/-! ## Arguments

An argument is an atom behind blanks.  Which atoms there are is left to an `AtomReader`, so that
arguments can be read before atoms have been defined. -/

/-- The next atom after any blanks.  A missing argument is an empty row (`emptyRow`), and nothing
but the blanks is consumed for it. -/
def readArgument (a : AtomReader) (s : List Char) : Reading Formula :=
  match a.read (skipBlank s) with
  | some r => r
  | none => ⟨.emptyRow, skipBlank s, []⟩

/-- What is left behind an argument is a suffix, also if there is none. -/
theorem readArgument_suffix (a : AtomReader) (s : List Char) :
    (readArgument a s).rest <:+ s := by
  unfold readArgument
  split
  · next h => exact (a.consumes h).1.trans (skipBlank_suffix s)
  · exact skipBlank_suffix s

end FormulaMarkup.Formula
