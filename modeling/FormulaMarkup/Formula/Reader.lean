import FormulaMarkup.Formula.Atom

/-!
# FormulaMarkup — reading a formula

The atoms inside an atom are read with one level less, and where no level is left the rest of the
input is taken as it is.  So the recursion through atoms is a recursion on the levels.

* **`atomReader`** — the reader of atoms with a given number of levels left.
* **`read`** — the formula of a whole source.
-/

namespace FormulaMarkup.Formula

open Source

/-- Whether an atom starts here: not at the end, and not at a token that ends something or attaches
to something. -/
def startsAtom : List Char → Bool
  | [] => false
  | c :: t =>
    !(c == '}' || c == '^' || c == '_' || c == '&'
      || c == '\\' && (t.head? == some '\\' || atCommand "right".toList (c :: t)
        || atCommand "end".toList (c :: t)))

/-- The rest of the input, taken as it is, with a report of its size (`tooDeep`). -/
def readVerbatim (s : List Char) : Reading Formula :=
  let text := String.ofList s
  ⟨.text text .words, [], [.tooDeep text.utf8ByteSize]⟩

/-- The reader of atoms with `levels` levels left.  An atom that starts where no level is left is
taken as it is, with everything after it. -/
def atomReader : Nat → AtomReader
  | 0 =>
    { read := fun s => if startsAtom s then some (readVerbatim s) else none
      consumes := by
        intro s r h
        cases s with
        | nil => simp [startsAtom] at h
        | cons c t =>
          split at h
          · cases h; exact ⟨List.nil_suffix, by simp [readVerbatim]⟩
          · simp at h }
  | levels + 1 =>
    { read := fun s => if startsAtom s then some (readAtomBody (atomReader levels) s) else none
      consumes := by
        intro s r h
        cases s with
        | nil => simp [startsAtom] at h
        | cons c t =>
          split at h
          · cases h; exact readAtomBody_consumes _ c t
          · simp at h }

/-- The formula of a whole source, with `maxNesting` levels for its atoms. -/
def read (source : List Char) : Reading Formula :=
  readExpression (atomReader maxNesting) [] source

end FormulaMarkup.Formula
