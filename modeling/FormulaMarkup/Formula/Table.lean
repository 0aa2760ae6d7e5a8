import FormulaMarkup.Formula.Expression
import FormulaMarkup.Source.Environment

/-!
# FormulaMarkup — tables

The body of a tabular environment is a run of cells.  An ampersand goes on to the next cell and a
double backslash to the next row; the end of the environment, or of the input, closes the table.

* **`readRows`** — the rows from a cell on.
* **`readMatrix`** — the whole table between the glyphs of its environment.
-/

namespace FormulaMarkup.Formula

open Source Text

/-- Consumes the end of an environment with its name, if the input continues with one. -/
def skipEnvironmentEnd (s : List Char) : List Char :=
  if atCommand "end".toList s then (readGroup (readCommand s).2).2 else s

/-- What is left behind the end of an environment is a suffix, also if there is none. -/
theorem skipEnvironmentEnd_suffix (s : List Char) : skipEnvironmentEnd s <:+ s := by
  unfold skipEnvironmentEnd
  split
  · exact (readGroup_suffix _).trans (readCommand_suffix s)
  · exact List.suffix_refl s

/-- Where a cell of an environment ends: at an ampersand, at a double backslash, and at the end of
the environment. -/
def cellStops (environment : List Char) : List Stop :=
  [.column, .row, .environmentEnd environment]

/-- Reads the rows of a table up to and including the end of its environment, with `cells` already
read in the row in progress.  A row that is in progress at the end is kept if it has a cell. -/
def readRows (a : AtomReader) (environment : List Char) (cells : List Formula)
    (s : List Char) : Reading (List (List Formula)) :=
  match s with
  | [] => ⟨if cells.isEmpty then [] else [cells], [], []⟩
  | c :: t =>
    let cell := readExpression a (cellStops environment) (c :: t)
    let cells := cells ++ [cell.value]
    match _h : cell.rest with
    | '&' :: r => (readRows a environment cells r).after cell.log
    | '\\' :: '\\' :: r => ((readRows a environment [] r).map (cells :: ·)).after cell.log
    -- the end of the environment or of the input
    | r => ⟨[cells], skipEnvironmentEnd r, cell.log⟩
termination_by s.length
decreasing_by
  all_goals
    have h := (readExpression_suffix a (cellStops environment) (c :: t)).length_le
    simp only [cell] at _h
    rw [_h] at h
    simp only [List.length_cons] at h ⊢
    omega

/-- What is left behind a table is a suffix. -/
theorem readRows_suffix (a : AtomReader) (environment : List Char) (cells : List Formula)
    (s : List Char) : (readRows a environment cells s).rest <:+ s := by
  fun_induction readRows a environment cells s with
  | case1 => exact List.suffix_refl _
  | case2 cells c t cell cells' r h ih =>
    have hs := readExpression_suffix a (cellStops environment) (c :: t)
    exact ih.trans ((List.suffix_cons _ _).trans (h ▸ hs))
  | case3 cells c t cell cells' r h ih =>
    have hs := readExpression_suffix a (cellStops environment) (c :: t)
    exact ih.trans ((List.suffix_cons _ _).trans ((List.suffix_cons _ _).trans (h ▸ hs)))
  | case4 cells c t cell =>
    exact (skipEnvironmentEnd_suffix _).trans
      (readExpression_suffix a (cellStops environment) (c :: t))

/-- Reads the body of a tabular environment: the rows (`readRows`), and the glyphs of the
`Environment`. -/
def readMatrix (a : AtomReader) (environment : Environment) (s : List Char) : Reading Formula :=
  (readRows a environment.name.toList [] s).map
    (.matrix · environment.opening environment.closing)

end FormulaMarkup.Formula
