import FormulaMarkup.Text.Blank

/-!
# FormulaMarkup — scanning commands and groups

The pieces of a source that are recognised without looking at what they contain.  Each reading
function returns what it read together with the input after it, which is always a suffix of the
input before.

* **`atCommand`** — whether the input continues with a command of a given name.
* **`readCommand`** — the name of a command.
* **`readGroup`** — the text between a brace and the brace that closes it, taken as it is.
-/

namespace FormulaMarkup.Source

open Text

/-- Whether the input starts with an ASCII letter, so that the name of a command before it would go
on. -/
def startsWithLetter : List Char → Bool
  | c :: _ => c.isAlpha
  | [] => false

/-- Whether the input continues with a backslash and exactly `name`: a longer run of letters is
the name of another command. -/
def atCommand (name : List Char) : List Char → Bool
  | '\\' :: s => name.isPrefixOf s && !startsWithLetter (s.drop name.length)
  | _ => false

/-- Reads a command name after its backslash.  The name is a run of ASCII letters or else a single
character of any kind; it is empty at the end of the input.  Without a backslash nothing is read
and the name is empty. -/
def readCommand : List Char → List Char × List Char
  | '\\' :: c :: s =>
    if c.isAlpha then (c :: s.takeWhile Char.isAlpha, s.dropWhile Char.isAlpha)
    else ([c], s)
  | ['\\'] => ([], [])
  | s => ([], s)

/-- Reads up to the brace that closes a group, `depth` groups being open inside it.  Inner braces
are part of the text; a group that is not closed ends with the input. -/
def groupText (depth : Nat) : List Char → List Char × List Char
  | [] => ([], [])
  | c :: s =>
    if c = '{' then
      let inner := groupText (depth + 1) s
      (c :: inner.1, inner.2)
    else if c = '}' then
      match depth with
      | 0 => ([], s)
      | depth + 1 =>
        let inner := groupText depth s
        (c :: inner.1, inner.2)
    else
      let inner := groupText depth s
      (c :: inner.1, inner.2)

/-- Reads a group after any blanks and returns its text.  If no brace follows, the text is empty
and only the blanks are gone. -/
def readGroup (s : List Char) : List Char × List Char :=
  match skipBlank s with
  | '{' :: t => groupText 0 t
  | t => ([], t)

/-! ## What is left is a suffix

No token is put together from parts that do not stand next to each other, and none puts anything
back. -/

/-- What is left behind the name of a command is a suffix. -/
theorem readCommand_suffix (s : List Char) : (readCommand s).2 <:+ s := by
  unfold readCommand
  split
  · split
    · exact (List.dropWhile_suffix _).trans
        ((List.suffix_cons _ _).trans (List.suffix_cons _ _))
    · exact (List.suffix_cons _ _).trans (List.suffix_cons _ _)
  · exact List.nil_suffix
  · exact List.suffix_refl _

/-- `readCommand` always consumes a backslash at the front. -/
theorem readCommand_length_lt (s : List Char) :
    (readCommand ('\\' :: s)).2.length < ('\\' :: s).length := by
  cases s with
  | nil => simp [readCommand]
  | cons c s =>
    have := (List.dropWhile_suffix (l := s) Char.isAlpha).length_le
    simp only [readCommand]
    split <;> simp only [List.length_cons] <;> omega

/-- What is left behind the text of a group is a suffix. -/
theorem groupText_suffix (depth : Nat) (s : List Char) : (groupText depth s).2 <:+ s := by
  induction s generalizing depth with
  | nil => exact List.suffix_refl _
  | cons c s ih =>
    have step := fun d => (ih d).trans (List.suffix_cons c s)
    unfold groupText
    split
    · exact step _
    · split
      · split
        · exact List.suffix_cons _ _
        · exact step _
      · exact step _

/-- What is left behind a group is a suffix, also if there is none. -/
theorem readGroup_suffix (s : List Char) : (readGroup s).2 <:+ s := by
  unfold readGroup
  split
  · next t h =>
    exact (groupText_suffix 0 t).trans
      ((List.suffix_cons _ _).trans (h ▸ skipBlank_suffix s))
  · exact skipBlank_suffix s

end FormulaMarkup.Source
