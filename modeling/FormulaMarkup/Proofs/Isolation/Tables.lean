import FormulaMarkup.Proofs.Isolation.Delimiters
import FormulaMarkup.Proofs.Node

/-!
# FormulaMarkup — tables are split into their cells

The texts of the cells stand between separators, which belong to no text unless they are in braces.
So a table has exactly the rows and cells that it was made of, and each cell is read as it would be
read alone, even if it is empty or malformed.

A cell is a content in the sense of `Content`, closed by a separator, by the end of the environment
or by the end of the input.  What is read of one cell comes from the simulation of `Lockstep`, and
the table is an induction over cells and rows.

* **`IsCell`** — the texts that can be a cell.
* **`tableBody`** — cells with their separators.
* **`readRows_cell_column`** and its neighbours — one cell, by what follows it.
* **`readRows_cells`**, **`readRows_rows`** — the cells of a row up to the last one, and the rows of
  a table.
* **`table_split`** — the whole table, with and without its end.
-/

namespace FormulaMarkup.Isolation

open Source Text Formula

/-! ## Cells

A separator in braces belongs to the cell, and one outside would split it.  The reader looks for a
separator between items, where all groups are closed, so the two views agree on which ones it finds.
-/

/-- A token that stands in the text outside its groups. -/
def StandsOutside (token t : List Char) : Prop :=
  ∃ p s, t = p ++ (token ++ s) ∧ p.count '{' = p.count '}'

instance (token t : List Char) : Decidable (StandsOutside token t) :=
  decidable_of_iff (∃ p ∈ t.inits, token <+: t.drop p.length ∧ p.count '{' = p.count '}') <| by
    constructor
    · rintro ⟨p, hp, ⟨s, hs⟩, hcount⟩
      obtain ⟨u, rfl⟩ := (List.mem_inits p t).mp hp
      rw [List.drop_left] at hs
      exact ⟨p, s, by rw [hs], hcount⟩
    · rintro ⟨p, s, rfl, hcount⟩
      refine ⟨p, (List.mem_inits _ _).mpr (List.prefix_append _ _), ?_, hcount⟩
      rw [List.drop_left]
      exact List.prefix_append _ _

/-- A text that can be a cell: it is `SelfContained`, and no separator `StandsOutside` its
groups. -/
structure IsCell (t : List Char) : Prop extends SelfContained t where
  column : ¬ StandsOutside ['&'] t
  row : ¬ StandsOutside ['\\', '\\'] t

instance (t : List Char) : Decidable (IsCell t) :=
  decidable_of_iff (SelfContained t ∧ ¬ StandsOutside ['&'] t ∧ ¬ StandsOutside ['\\', '\\'] t)
    ⟨fun ⟨ht, hcolumn, hrow⟩ => ⟨ht, hcolumn, hrow⟩, fun h => ⟨h.1, h.column, h.row⟩⟩

/-- A token that begins what is left of a text outside its groups stands outside them
(`StandsOutside`). -/
theorem standsOutside_of_suffix {token s t : List Char} (ht : Balanced t)
    (hs : token ++ s <:+ t) (hrest : Balanced (token ++ s)) : StandsOutside token t := by
  obtain ⟨p, rfl⟩ := hs
  refine ⟨p, s, rfl, ?_⟩
  have hall := ht.2
  have hleft := hrest.2
  simp only [List.count_append] at hall hleft
  omega

/-- **A cell goes on up to its end**: none of the `cellStops` comes before, neither a separator nor
the end of an environment. -/
theorem IsCell.stopsAgree {x t : List Char} (h : IsCell t) (hx : Closing x) {name : List Char}
    (hlast : x = [] ∨ Stop.anyAt (cellStops name) x = true) :
    StopsAgree x 0 [] (cellStops name) t where
  within c u hu hrest := by
    have hbalanced : Balanced (c :: u) := balancedFrom_zero.mp hrest.balanced
    -- an ampersand would stand outside the groups
    have hcolumn : Stop.isAt (c :: (u ++ x)) .column = false := by
      refine beq_eq_false_iff_ne.mpr fun hc => ?_
      obtain rfl : c = '&' := Option.some.inj hc
      exact h.column (standsOutside_of_suffix h.balanced hu hbalanced)
    have hrow : Stop.isAt (c :: (u ++ x)) .row = false := by
      rw [Stop.isAt, Bool.eq_false_iff, ne_eq, List.isPrefixOf_iff_prefix]
      intro hstart
      obtain ⟨rfl, hsecond⟩ := List.cons_prefix_cons.mp hstart
      -- the second backslash is one of the text as well
      obtain ⟨d, v, rfl, _, _⟩ := hrest.of_slash
      obtain ⟨rfl, -⟩ := List.cons_prefix_cons.mp hsecond
      exact h.row (@standsOutside_of_suffix ['\\', '\\'] v t h.balanced hu hbalanced)
    -- the end of an environment is a paired command
    have hend : Stop.isAt (c :: (u ++ x)) (.environmentEnd name) = false := by
      rw [Stop.isAt, Stop.atEnvironmentEnd,
        hx.atCommand_append "end".toList (by decide) (by decide) hrest,
        hrest.atCommand_eq_false (by decide), Bool.false_and]
    simp only [Stop.anyAt, cellStops, List.any_cons, List.any_nil, hcolumn, hrow, hend,
      Bool.or_false]
  brace u hrest := by
    obtain ⟨_, hdepth, _⟩ := hrest.closed
    cases hdepth
  last _ := hlast

/-! ## Texts of tables

Texts are put together from the cells, and the reader takes them apart from the left.  The last cell
is the one that is not followed by a separator, so rows are written as those before and a last one.
-/

/-- A row of cells, of which there is at least one. -/
def IsRow (row : List (List Char)) : Prop := row ≠ [] ∧ ∀ cell ∈ row, IsCell cell

instance (row : List (List Char)) : Decidable (IsRow row) :=
  inferInstanceAs (Decidable (_ ∧ _))

/-- The cells of a row with ampersands between them. -/
def rowText (row : List (List Char)) : List Char := List.intercalate ['&'] row

/-- The rows of a table with double backslashes between them. -/
def tableBody (rows : List (List (List Char))) : List Char :=
  List.intercalate ['\\', '\\'] (rows.map rowText)

/-- A separator follows every text but the last one. -/
theorem intercalate_concat {α : Type} (sep : List α) (texts : List (List α)) (last : List α) :
    sep.intercalate (texts ++ [last]) = texts.flatMap (· ++ sep) ++ last := by
  induction texts with
  | nil => exact List.intercalate_singleton
  | cons text texts ih =>
    have hne : texts ++ [last] ≠ [] := by simp
    rw [List.cons_append, List.intercalate_cons_of_ne_nil hne, ih, List.flatMap_cons]
    simp only [List.append_assoc]

/-- In `rowText` every cell but the last one is followed by an ampersand. -/
theorem rowText_concat (cells : List (List Char)) (last : List Char) :
    rowText (cells ++ [last]) = cells.flatMap (· ++ ['&']) ++ last :=
  intercalate_concat ['&'] cells last

/-- In `tableBody` every row but the last one is followed by a double backslash. -/
theorem tableBody_concat (rows : List (List (List Char))) (last : List (List Char)) :
    tableBody (rows ++ [last]) = rows.flatMap (rowText · ++ ['\\', '\\']) ++ rowText last := by
  rw [tableBody, List.map_append, List.map_singleton, intercalate_concat, List.flatMap_map]

/-- The rows without a last cell that is empty, and without its row if it is the only cell there. -/
def withoutEmptyEnd : List (List (List Char)) → List (List (List Char))
  | [] => []
  | [row] => if row = [[]] then [] else if row.getLast? = some [] then [row.dropLast] else [row]
  | row :: next :: rows => row :: withoutEmptyEnd (next :: rows)

/-- `withoutEmptyEnd` looks at the last row only. -/
theorem withoutEmptyEnd_concat (rows : List (List (List Char))) (last : List (List Char)) :
    withoutEmptyEnd (rows ++ [last]) = rows ++ withoutEmptyEnd [last] := by
  induction rows with
  | nil => rfl
  | cons row rows ih =>
    obtain ⟨next, others, hnext⟩ := List.exists_cons_of_ne_nil (show rows ++ [last] ≠ [] by simp)
    rw [List.cons_append, List.cons_append, ← ih, hnext, withoutEmptyEnd]

/-- A last cell that is not empty stays. -/
theorem withoutEmptyEnd_of_ne {last : List Char} (h : last ≠ []) (cells : List (List Char)) :
    withoutEmptyEnd [cells ++ [last]] = [cells ++ [last]] := by
  have hsingle : cells ++ [last] ≠ [[]] := by
    intro heq
    have hlast := congrArg List.getLast? heq
    rw [List.getLast?_concat] at hlast
    exact h (Option.some.inj hlast)
  rw [withoutEmptyEnd, if_neg hsingle, List.getLast?_concat, if_neg (by simpa using h)]

/-- An empty last cell is gone, and its row with it if there is no other cell in it. -/
theorem withoutEmptyEnd_empty (cells : List (List Char)) :
    withoutEmptyEnd [cells ++ [[]]] = if cells.isEmpty then [] else [cells] := by
  cases cells with
  | nil => rfl
  | cons cell cells =>
    have hsingle : cell :: cells ++ [[]] ≠ [[]] := by simp
    rw [withoutEmptyEnd, if_neg hsingle, List.getLast?_concat, if_pos rfl, List.dropLast_concat]
    rfl

/-- A table that is not empty has a last cell. -/
theorem exists_last_cell {rows : List (List (List Char))} (hne : rows ≠ [])
    (hrows : ∀ row ∈ rows, row ≠ []) : ∃ before cells last, rows = before ++ [cells ++ [last]] := by
  have hlast := hrows (rows.getLast hne) (List.getLast_mem hne)
  refine ⟨rows.dropLast, (rows.getLast hne).dropLast, (rows.getLast hne).getLast hlast, ?_⟩
  rw [List.dropLast_append_getLast, List.dropLast_append_getLast]

/-- The parts of a table consist of cells, if the table does. -/
theorem cells_of_concat {before : List (List (List Char))} {cells : List (List Char)}
    {last : List Char} (h : ∀ row ∈ before ++ [cells ++ [last]], IsRow row) :
    (∀ row ∈ before, IsRow row) ∧ (∀ cell ∈ cells, IsCell cell) ∧ IsCell last := by
  obtain ⟨-, hrow⟩ := h (cells ++ [last]) (List.mem_append_right _ List.mem_cons_self)
  exact ⟨fun row hmem => h row (List.mem_append_left _ hmem),
    fun cell hmem => hrow cell (List.mem_append_left _ hmem),
    hrow last (List.mem_append_right _ List.mem_cons_self)⟩

/-! ## One cell

A cell is read as a whole source would be, and then what follows it decides.  Each lemma takes one
cell off the text, with the cells of the row in progress given. -/

/-- What is found in the first cell is reported first, so it stays within the limit if the table
does. -/
theorem cell_log_isPrefix (a : AtomReader) (name : List Char) (cells : List Formula) {s : List Char}
    (hs : s ≠ []) :
    (readExpression a (cellStops name) s).log <+: (readRows a name cells s).log := by
  obtain ⟨c, t, rfl⟩ := List.exists_cons_of_ne_nil hs
  rw [readRows]
  split
  · exact List.prefix_append _ _
  · exact List.prefix_append _ _
  · exact List.prefix_refl _

theorem WithinLimit.mono {log log' : List Diagnostic} (h : WithinLimit log')
    (hstart : log <+: log') : WithinLimit log :=
  fun n hn => h n (hstart.subset hn)

section Cells

variable {levels : Nat} (hlevels : levels ≤ maxNesting) {name : List Char} {t : List Char}
  (ht : IsCell t) (cells : List Formula)
include hlevels ht

/-- A cell is read up to what ends it as if it were the whole source: `readExpression_content` for
the stops of a cell. -/
theorem readExpression_cell {x : List Char} (hx : Closing x)
    (hlast : x = [] ∨ Stop.anyAt (cellStops name) x = true) (hne : t ++ x ≠ [])
    (hlimit : WithinLimit (readRows (atomReader levels) name cells (t ++ x)).log) :
    readExpression (atomReader levels) (cellStops name) (t ++ x) =
      ⟨(read t).value, x, (read t).log⟩ :=
  readExpression_content hlevels ht.toSelfContained hx (ht.stopsAgree hx hlast)
    (hlimit.mono (cell_log_isPrefix _ name cells hne))

/-- An ampersand ends the cell, and the row goes on. -/
theorem readRows_cell_column (u : List Char)
    (hlimit : WithinLimit (readRows (atomReader levels) name cells (t ++ '&' :: u)).log) :
    readRows (atomReader levels) name cells (t ++ '&' :: u) =
      (readRows (atomReader levels) name (cells ++ [(read t).value]) u).after (read t).log := by
  have hx : Closing ('&' :: u) := ⟨rfl, by rintro c u ⟨⟩; rfl⟩
  have hcell := readExpression_cell hlevels ht cells hx (.inr rfl) (by simp) hlimit
  rw [readRows_of_column _ name cells (by simp) (congrArg Reading.rest hcell), hcell]

/-- A double backslash ends the cell and its row. -/
theorem readRows_cell_row (u : List Char)
    (hlimit : WithinLimit (readRows (atomReader levels) name cells (t ++ '\\' :: '\\' :: u)).log) :
    readRows (atomReader levels) name cells (t ++ '\\' :: '\\' :: u) =
      ((readRows (atomReader levels) name [] u).map ((cells ++ [(read t).value]) :: ·)).after
        (read t).log := by
  have hx : Closing ('\\' :: '\\' :: u) := ⟨rfl, by rintro c u ⟨⟩; rfl⟩
  have hcell := readExpression_cell hlevels ht cells hx (.inr rfl) (by simp) hlimit
  rw [readRows_of_row _ name cells (by simp) (congrArg Reading.rest hcell), hcell]

/-- The end of the environment ends the cell, its row and the table, and `skipEnvironmentEnd`
consumes it. -/
theorem readRows_cell_end (hname : Balanced name) (r : List Char)
    (hlimit : WithinLimit
      (readRows (atomReader levels) name cells (t ++ environmentEnd name r)).log) :
    readRows (atomReader levels) name cells (t ++ environmentEnd name r) =
      ⟨[cells ++ [(read t).value]], r, (read t).log⟩ := by
  obtain ⟨hx, hat, hskip⟩ := closing_environmentEnd hname r
  have hlast : Stop.anyAt (cellStops name) (environmentEnd name r) = true :=
    List.any_eq_true.mpr ⟨.environmentEnd name, by simp [cellStops], hat⟩
  have hne : t ++ environmentEnd name r ≠ [] := by simp [environmentEnd]
  have hcell := readExpression_cell hlevels ht cells hx (.inr hlast) hne hlimit
  rw [readRows_of_end _ name cells hne, hcell, hskip]
  · rw [hcell]
    rintro u ⟨⟩
  · rw [hcell]
    rintro u ⟨⟩

/-- At the end of the input a cell is there if its text is: `readRows` does not begin a cell where
nothing is left. -/
theorem readRows_cell_nothing (hne : t ≠ [])
    (hlimit : WithinLimit (readRows (atomReader levels) name cells t).log) :
    readRows (atomReader levels) name cells t =
      ⟨[cells ++ [(read t).value]], [], (read t).log⟩ := by
  rw [← List.append_nil t] at hne hlimit
  have hcell := readExpression_cell hlevels ht cells closing_nil (.inl rfl) hne hlimit
  rw [List.append_nil] at hne hcell
  rw [readRows_of_end _ name cells hne, hcell]
  · rfl
  · rw [hcell]
    rintro u ⟨⟩
  · rw [hcell]
    rintro u ⟨⟩

end Cells

/-! ## Rows of cells

The trees and the logs of the cells are collected from the left.  The limit is passed on along with
the induction: the log of the rest is an end of the log of the table. -/

/-- The trees of the cells of a row. -/
def cellTrees (row : List (List Char)) : List Formula := row.map fun cell => (read cell).value

/-- What is reported of the cells of a row. -/
def cellLogs (row : List (List Char)) : List Diagnostic := row.flatMap fun cell => (read cell).log

/-- The trees of a row are those of the cells before and of the last one. -/
theorem cellTrees_concat (cells : List (List Char)) (last : List Char) :
    cellTrees (cells ++ [last]) = cellTrees cells ++ [(read last).value] :=
  List.map_append

/-- The logs of a row are those of the cells before and of the last one. -/
theorem cellLogs_concat (cells : List (List Char)) (last : List Char) :
    cellLogs (cells ++ [last]) = cellLogs cells ++ (read last).log := by
  rw [cellLogs, List.flatMap_append, List.flatMap_singleton]
  rfl

theorem read_nil : read [] = ⟨.emptyRow, [], []⟩ := by
  rw [Formula.read, readExpression, readItems_of_nil _ [] rfl]
  rfl

theorem after_after {α : Type} (r : Reading α) (log log' : List Diagnostic) :
    (r.after log').after log = r.after (log ++ log') :=
  congrArg (Reading.mk r.value r.rest) (List.append_assoc log log' r.log).symm

section Rows

variable {levels : Nat} (hlevels : levels ≤ maxNesting) {name : List Char}
include hlevels

/-- **The cells of a row are read one after another**, up to the last one.  Induction on the cells,
for all rows in progress; `readRows_cell_column` is the step. -/
theorem readRows_cells {row : List (List Char)} (hrow : ∀ cell ∈ row, IsCell cell)
    (cells : List Formula) (s : List Char)
    (hlimit : WithinLimit
      (readRows (atomReader levels) name cells (row.flatMap (· ++ ['&']) ++ s)).log) :
    readRows (atomReader levels) name cells (row.flatMap (· ++ ['&']) ++ s) =
      (readRows (atomReader levels) name (cells ++ cellTrees row) s).after (cellLogs row) := by
  induction row generalizing cells with
  | nil =>
    rw [cellTrees, List.map_nil, List.append_nil]
    rfl
  | cons cell row ih =>
    have hcell := hrow cell List.mem_cons_self
    have hsource : (cell :: row).flatMap (· ++ ['&']) ++ s =
        cell ++ '&' :: (row.flatMap (· ++ ['&']) ++ s) := by
      simp only [List.flatMap_cons, List.append_assoc, List.cons_append, List.nil_append]
    rw [hsource] at hlimit ⊢
    -- the first cell ends at its ampersand and joins those in progress
    have hstep := readRows_cell_column hlevels hcell cells _ hlimit
    rw [hstep] at hlimit ⊢
    have hrest := ih (fun cell hmem => hrow cell (List.mem_cons_of_mem _ hmem))
      (cells ++ [(read cell).value]) hlimit.of_append.2
    rw [hrest, after_after, List.append_assoc]
    rfl

/-- **The rows of a table are read one after another**, up to the last one.  Induction on the rows;
`readRows_cells` reads all cells of a row but the last one, and `readRows_cell_row` that one. -/
theorem readRows_rows {rows : List (List (List Char))}
    (hrows : ∀ row ∈ rows, IsRow row) (s : List Char)
    (hlimit : WithinLimit (readRows (atomReader levels) name []
      (rows.flatMap (rowText · ++ ['\\', '\\']) ++ s)).log) :
    readRows (atomReader levels) name [] (rows.flatMap (rowText · ++ ['\\', '\\']) ++ s) =
      ((readRows (atomReader levels) name [] s).map (rows.map cellTrees ++ ·)).after
        (rows.flatMap cellLogs) := by
  induction rows with
  | nil => rfl
  | cons row rows ih =>
    obtain ⟨hne, hcells⟩ := hrows row List.mem_cons_self
    obtain ⟨before, last, rfl⟩ : ∃ before last, row = before ++ [last] :=
      ⟨row.dropLast, row.getLast hne, (List.dropLast_append_getLast hne).symm⟩
    have hbefore : ∀ cell ∈ before, IsCell cell := fun cell hmem =>
      hcells cell (List.mem_append_left _ hmem)
    have hlast : IsCell last := hcells last (List.mem_append_right _ List.mem_cons_self)
    have hsource : ((before ++ [last]) :: rows).flatMap (rowText · ++ ['\\', '\\']) ++ s =
        before.flatMap (· ++ ['&']) ++ (last ++
          '\\' :: '\\' :: (rows.flatMap (rowText · ++ ['\\', '\\']) ++ s)) := by
      simp only [List.flatMap_cons, rowText_concat, List.append_assoc, List.cons_append,
        List.nil_append]
    rw [hsource] at hlimit ⊢
    -- the cells of the row up to its last one, the last one, and the rows behind
    have hrow := readRows_cells hlevels hbefore [] _ hlimit
    rw [hrow] at hlimit ⊢
    have hstep := readRows_cell_row hlevels hlast _ _ hlimit.of_append.2
    rw [hstep] at hlimit ⊢
    have hrest := ih (fun row hmem => hrows row (List.mem_cons_of_mem _ hmem))
      hlimit.of_append.2.of_append.2
    rw [hrest, List.flatMap_cons, cellLogs_concat, List.map_cons, cellTrees_concat, after_after]
    exact after_after ((readRows (atomReader levels) name [] s).map fun others =>
      (cellTrees before ++ [(read last).value]) :: (rows.map cellTrees ++ others)) _ _

/-- A table is read up to its last cell: all rows before its row (`readRows_rows`), and all cells
before it (`readRows_cells`). -/
theorem readRows_last {before : List (List (List Char))} {cells : List (List Char)}
    (hbefore : ∀ row ∈ before, IsRow row)
    (hcells : ∀ cell ∈ cells, IsCell cell) (last s : List Char)
    (hlimit : WithinLimit (readRows (atomReader levels) name []
      (tableBody (before ++ [cells ++ [last]]) ++ s)).log) :
    readRows (atomReader levels) name [] (tableBody (before ++ [cells ++ [last]]) ++ s) =
      ((readRows (atomReader levels) name (cellTrees cells) (last ++ s)).map
        (before.map cellTrees ++ ·)).after (before.flatMap cellLogs ++ cellLogs cells) := by
  rw [tableBody_concat, rowText_concat, List.append_assoc, List.append_assoc] at hlimit ⊢
  have hrows := readRows_rows hlevels hbefore _ hlimit
  rw [hrows] at hlimit ⊢
  rw [readRows_cells hlevels hcells [] _ hlimit.of_append.2]
  exact after_after ((readRows (atomReader levels) name (cellTrees cells) (last ++ s)).map
    (before.map cellTrees ++ ·)) _ _

/-- **A table is read up to its end**, with the rows and cells that it was made of. -/
theorem readRows_table {rows : List (List (List Char))} (hne : rows ≠ [])
    (hrows : ∀ row ∈ rows, IsRow row) (hname : Balanced name)
    (r : List Char)
    (hlimit : WithinLimit (readRows (atomReader levels) name []
      (tableBody rows ++ environmentEnd name r)).log) :
    readRows (atomReader levels) name [] (tableBody rows ++ environmentEnd name r) =
      ⟨rows.map cellTrees, r, rows.flatMap cellLogs⟩ := by
  obtain ⟨before, cells, last, rfl⟩ := exists_last_cell hne fun row hrow => (hrows row hrow).1
  obtain ⟨hbefore, hcells, hlast⟩ := cells_of_concat hrows
  have hread := readRows_last hlevels hbefore hcells last _ hlimit
  rw [hread] at hlimit ⊢
  rw [readRows_cell_end hlevels hlast _ hname r hlimit.of_append.2]
  simp only [List.map_append, List.flatMap_append, List.map_singleton, List.flatMap_singleton,
    cellTrees_concat, cellLogs_concat, Reading.map, Reading.after, List.append_assoc]

/-- **A table without an end is read up to the end of the input**, where an empty text is no cell
(`withoutEmptyEnd`). -/
theorem readRows_unclosed {rows : List (List (List Char))} (hne : rows ≠ [])
    (hrows : ∀ row ∈ rows, IsRow row)
    (hlimit : WithinLimit (readRows (atomReader levels) name [] (tableBody rows)).log) :
    readRows (atomReader levels) name [] (tableBody rows) =
      ⟨(withoutEmptyEnd rows).map cellTrees, [], rows.flatMap cellLogs⟩ := by
  obtain ⟨before, cells, last, rfl⟩ := exists_last_cell hne fun row hrow => (hrows row hrow).1
  obtain ⟨hbefore, hcells, hlast⟩ := cells_of_concat hrows
  rw [← List.append_nil (tableBody _)] at hlimit ⊢
  have hread := readRows_last hlevels hbefore hcells last _ hlimit
  rw [hread] at hlimit ⊢
  rw [List.append_nil] at hlimit ⊢
  rw [withoutEmptyEnd_concat, List.map_append, List.flatMap_append, List.flatMap_singleton,
    cellLogs_concat]
  -- an empty text at the end of the input is no cell
  by_cases hempty : last = []
  · subst hempty
    rw [withoutEmptyEnd_empty, read_nil, readRows]
    simp only [Reading.map, Reading.after, List.append_nil]
    cases cells <;> rfl
  · rw [readRows_cell_nothing hlevels hlast _ hempty hlimit.of_append.2,
      withoutEmptyEnd_of_ne hempty, List.map_singleton, cellTrees_concat, ← List.append_assoc]
    rfl

end Rows

/-! ## Tables

The environment is read by its name and with its column specification, if it has one, and what
follows are the rows. -/

/-- The beginning of a tabular environment, with what follows it.  The column specification is there
if the environment has one. -/
def tableBegin (environment : Environment) (spec s : List Char) : List Char :=
  "\\begin\x7b".toList ++ (environment.name.toList ++ '}' ::
    if environment.hasColumnSpec then '{' :: (spec ++ '}' :: s) else s)

/-- The environments that make tables have names, with no braces in them. -/
theorem name_facts (environment : Environment) :
    environment.name.toList ≠ [] ∧ Balanced environment.name.toList := by
  cases environment <;> decide

/-- What is read behind the beginning of a tabular environment are rows.  The name and the column
specification are groups whose braces match (`groupText_balanced`), and the specification is skipped
only where the environment has one. -/
theorem readAtomBody_tableBegin (a : AtomReader) (environment : Environment) {spec : List Char}
    (hspec : Balanced spec) (s : List Char) :
    readAtomBody a (tableBegin environment spec s) = readMatrix a environment s := by
  obtain ⟨hne, hname⟩ := name_facts environment
  have hgroup : ∀ u, readGroup ('{' :: (environment.name.toList ++ '}' :: u)) =
      (environment.name.toList, u) :=
    groupText_balanced hname
  have hskip : readGroup ('{' :: (spec ++ '}' :: s)) = (spec, s) := groupText_balanced hspec s
  have hsource : tableBegin environment spec s = '\\' :: ("begin".toList ++
      '{' :: (environment.name.toList ++ '}' ::
        if environment.hasColumnSpec then '{' :: (spec ++ '}' :: s) else s)) := rfl
  rw [hsource, readAtomBody_letters a "begin" (by decide) (by decide) rfl]
  show readEnvironment a _ = _
  simp only [readEnvironment, hgroup, hne, if_false, String.ofList_toList,
    Environment.ofName?_name]
  cases environment.hasColumnSpec with
  | false => rfl
  | true => simp only [if_true, hskip]

/-- The reading of a table, laid out: `layOut` goes through to the cells. -/
theorem map_layOut_matrix (config : Config) (rows rows' : List (List (List Char)))
    (opening closing : String) (r : List Char) :
    Reading.map (layOut config)
        ⟨.matrix (rows.map cellTrees) opening closing, r, rows'.flatMap cellLogs⟩ =
      ⟨.matrix (rows.map (List.map fun cell => (parse config cell).value)) opening closing, r,
        rows'.flatten.flatMap fun cell => (parse config cell).log⟩ := by
  have hrows : layOut config (.matrix (rows.map cellTrees) opening closing) =
      .matrix (rows.map (List.map fun cell => (parse config cell).value)) opening closing := by
    show Node.matrix (Node.relabelRows _ _ (rows.map cellTrees)) opening closing = _
    rw [Node.relabelRows_eq_map, List.map_map]
    congr 1
    refine List.map_congr_left fun row _ => ?_
    exact List.map_map
  have hlog : rows'.flatMap cellLogs =
      rows'.flatten.flatMap fun cell => (parse config cell).log := by
    rw [List.flatten_eq_flatMap, List.flatMap_assoc]
    rfl
  rw [Reading.map, hrows, hlog]

/-- **A tabular environment is split into its rows and cells**, in order and in number, and each
cell is read as it would be read alone, even if it is empty or malformed.  Exactly what follows the
environment is left, as long as the limit on nesting is not reached.  If nothing follows the cells,
not even the end of the environment, an empty text at the end is no cell. -/
theorem table_split (config : Config) (depth : Nat) (environment : Environment) {spec : List Char}
    (hspec : Balanced spec) {rows : List (List (List Char))} (hne : rows ≠ [])
    (hrows : ∀ row ∈ rows, IsRow row) (r : List Char) :
    (∃ atom, (atomReader (maxNesting - depth)).read (tableBegin environment spec
        (tableBody rows ++ environmentEnd environment.name.toList r)) = some atom ∧
      (WithinLimit atom.log → atom.map (layOut config) =
        ⟨.matrix (rows.map (List.map fun cell => (parse config cell).value))
          environment.opening environment.closing, r,
          rows.flatten.flatMap fun cell => (parse config cell).log⟩)) ∧
    (∃ atom, (atomReader (maxNesting - depth)).read
        (tableBegin environment spec (tableBody rows)) = some atom ∧
      (WithinLimit atom.log → atom.map (layOut config) =
        ⟨.matrix ((withoutEmptyEnd rows).map (List.map fun cell => (parse config cell).value))
          environment.opening environment.closing, [],
          rows.flatten.flatMap fun cell => (parse config cell).log⟩)) := by
  have hlevels : maxNesting - depth ≤ maxNesting := Nat.sub_le _ _
  obtain ⟨-, hname⟩ := name_facts environment
  refine ⟨?_, ?_⟩
  · -- with the end of the environment
    rw [← map_layOut_matrix]
    refine read_within config hlevels rfl _ fun l hl => ?_
    rw [readAtomBody_tableBegin _ _ hspec]
    intro hlimit
    rw [readMatrix, readRows_table hl hne hrows hname r hlimit]
    rfl
  · rw [← map_layOut_matrix]
    refine read_within config hlevels rfl _ fun l hl => ?_
    rw [readAtomBody_tableBegin _ _ hspec]
    intro hlimit
    rw [readMatrix, readRows_unclosed hl hne hrows hlimit]
    rfl

/-- A script without an argument and an empty cell, separators in a group and a command without
arguments, and a row of one empty cell. -/
def malformedRows : List (List (List Char)) :=
  [["a^".toList, []], ["\x7b&\\\\ \x7d_".toList, "\\frac".toList], [[]]]

/-- A table whose cells are malformed, with its end and without it. -/
theorem table_split_malformed :
    Balanced "c\x7bl\x7d".toList ∧ malformedRows ≠ [] ∧ (∀ row ∈ malformedRows, IsRow row) ∧
    (∃ atom, (atomReader (maxNesting - 3)).read (tableBegin .array "c\x7bl\x7d".toList
        (tableBody malformedRows ++ environmentEnd "array".toList "^2".toList)) = some atom ∧
      atom.map (layOut .standard) =
        ⟨.matrix (malformedRows.map (List.map fun cell => (parse .standard cell).value)) "" "",
          "^2".toList, malformedRows.flatten.flatMap fun cell => (parse .standard cell).log⟩) ∧
    (∃ atom, (atomReader (maxNesting - 3)).read (tableBegin .array "c\x7bl\x7d".toList
        (tableBody malformedRows)) = some atom ∧
      -- the last row is not there
      atom.map (layOut .standard) =
        ⟨.matrix (malformedRows.dropLast.map (List.map fun cell => (parse .standard cell).value))
          "" "", [], malformedRows.flatten.flatMap fun cell => (parse .standard cell).log⟩) := by
  have hspec : Balanced "c\x7bl\x7d".toList := by decide
  have hne : malformedRows ≠ [] := List.cons_ne_nil _ _
  have hrows : ∀ row ∈ malformedRows, IsRow row := by decide +kernel
  obtain ⟨⟨closed, hclosed, hisClosed⟩, ⟨unclosed, hunclosed, hisUnclosed⟩⟩ :=
    table_split .standard 3 .array hspec hne hrows "^2".toList
  have hlimits : ∀ source ∈ [tableBegin .array "c\x7bl\x7d".toList
      (tableBody malformedRows ++ environmentEnd "array".toList "^2".toList),
      tableBegin .array "c\x7bl\x7d".toList (tableBody malformedRows)],
      ∀ atom ∈ (atomReader (maxNesting - 3)).read source, WithinLimit atom.log := by
    decide +kernel
  refine ⟨hspec, hne, hrows, ⟨closed, hclosed, ?_⟩, unclosed, hunclosed, ?_⟩
  · exact hisClosed (hlimits _ List.mem_cons_self _ hclosed)
  · exact hisUnclosed (hlimits _ (List.mem_cons_of_mem _ List.mem_cons_self) _ hunclosed)

end FormulaMarkup.Isolation
