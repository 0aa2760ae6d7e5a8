import FormulaMarkup.Source.Scan

/-!
# FormulaMarkup — a cursor in a source

A **`Cursor`** divides a source into the part that has been consumed and the part that is left.
Operations that look leave it alone, those that read move it forward over what they return, and a
**`Checkpoint`** takes it back to where it was.

* **`Cursor.input`** — the whole source, which no operation changes.
* **`Cursor.moveTo`** — every move forward goes to a suffix of what is left.
-/

namespace FormulaMarkup.Source

/-- A place in a source.  `before` holds the consumed characters, the last one first. -/
structure Cursor where
  before : List Char
  rest : List Char

/-- A place to return to, as the number of characters before it. -/
structure Checkpoint where
  position : Nat
  deriving DecidableEq, Repr

namespace Cursor

/-- The cursor in front of a source. -/
def start (source : List Char) : Cursor := ⟨[], source⟩

/-- The whole input, the part that has been read included. -/
def input (c : Cursor) : List Char := c.before.reverse ++ c.rest

/-- The number of characters that have been read. -/
def position (c : Cursor) : Nat := c.before.length

/-- Moves forward to where only `rest`, a suffix of what is left, remains. -/
def moveTo (c : Cursor) (rest : List Char) : Cursor :=
  ⟨(c.rest.take (c.rest.length - rest.length)).reverse ++ c.before, rest⟩

theorem input_moveTo {c : Cursor} {rest : List Char} (h : rest <:+ c.rest) :
    (c.moveTo rest).input = c.input := by
  obtain ⟨t, ht⟩ := h
  simp [moveTo, input, ← ht]

/-! ## Looking

These say something about what is left and leave the cursor where it is. -/

/-- Whether nothing is left. -/
def isAtEnd (c : Cursor) : Bool := c.rest.isEmpty

/-- The next character. -/
def peek? (c : Cursor) : Option Char := c.rest.head?

/-- Whether this text is next. -/
def startsWith (c : Cursor) (text : List Char) : Bool := text.isPrefixOf c.rest

/-- Whether a command of this name is next. -/
def atCommand (c : Cursor) (name : List Char) : Bool := Source.atCommand name c.rest

/-! ## Reading

These move the cursor forward over what they read. -/

/-- The next character, which is consumed. -/
def next (c : Cursor) : Option Char × Cursor :=
  match c.rest with
  | [] => (none, c)
  | x :: s => (some x, c.moveTo s)

/-- Consumes one character and returns it as a text, which is empty at the end. -/
def nextText (c : Cursor) : List Char × Cursor :=
  (c.rest.take 1, c.moveTo (c.rest.drop 1))

/-- Consumes `text` if the input continues with it. -/
def eatText (c : Cursor) (text : List Char) : Bool × Cursor :=
  if c.startsWith text then (true, c.moveTo (c.rest.drop text.length)) else (false, c)

/-- Consumes a character if it is next, and says whether it was. -/
def eat (c : Cursor) (x : Char) : Bool × Cursor :=
  c.eatText [x]

/-- Moves over the blanks. -/
def skipBlank (c : Cursor) : Cursor :=
  c.moveTo (Text.skipBlank c.rest)

/-- The name of a command, which is consumed with its backslash. -/
def readCommand (c : Cursor) : List Char × Cursor :=
  let (name, rest) := Source.readCommand c.rest
  (name, c.moveTo rest)

/-- The text of a group, which is consumed with its braces. -/
def readGroup (c : Cursor) : List Char × Cursor :=
  let (text, rest) := Source.readGroup c.rest
  (text, c.moveTo rest)

/-- All that is left, which is consumed. -/
def takeRest (c : Cursor) : List Char × Cursor :=
  (c.rest, c.moveTo [])

/-! ## Checkpoints

A checkpoint is a position and nothing else.  It belongs to the input it was taken from. -/

/-- The place where the cursor stands. -/
def save (c : Cursor) : Checkpoint := ⟨c.position⟩

/-- The cursor at a place of the same source. -/
def restore (c : Cursor) (p : Checkpoint) : Cursor :=
  ⟨(c.input.take p.position).reverse, c.input.drop p.position⟩

/-- The text from a checkpoint up to the cursor; empty if the checkpoint lies ahead. -/
def since (c : Cursor) (p : Checkpoint) : List Char :=
  (c.input.take c.position).drop p.position

/-- Going back to a checkpoint right away changes nothing. -/
theorem restore_save (c : Cursor) : c.restore c.save = c := by
  simp [restore, save, position, input]

end Cursor

end FormulaMarkup.Source
