import FormulaMarkup.Proofs.Notation.Atoms

/-!
# FormulaMarkup — reading a run

The runs of the notation are the cells of a table, the scripts of a base and the items of an
expression.  Each lemma adds one member to a run and leaves the rest of the run to the rest, so that
the induction over the constructs has one lemma for each of its cases.

* **`Cells.ReadBy`** — that cells are read as theirs, given what the row in progress has already.
* **`readBy_column`**, **`readBy_row`**, **`readBy_table`** — cells and tables.
* **`readBy_one`**, **`readBy_both`** — scripts.
* **`readBy_item`** — items.
-/

namespace FormulaMarkup.Notation

open Source Text Formula

/-! ## Tables

The loop over the cells carries the row in progress.  `inFront` puts its cells in front of the first
row of what follows, and that is how the tree of some cells is put together too. -/

/-- A column specification is read and dropped, where there is one. -/
theorem ColumnSpec.skip {environment : Environment} (spec : ColumnSpec environment)
    (s : List Char) :
    (if environment.hasColumnSpec then (readGroup (spec.source ++ s)).2 else spec.source ++ s)
      = s := by
  cases spec with
  | none h => rw [h]; rfl
  | group h gap text => rw [h, if_pos rfl, ColumnSpec.source, List.append_assoc, readGroup_source]

/-- `readRows` reads the cells up to the end of the environment, which goes with them.  They belong
to the row whose first cells have been read already. -/
def Cells.ReadBy (a : AtomReader) (x : Cells) : Prop :=
  ∀ (name : Group) (gap : Blanks) (rest : List Char) (cells : List Formula),
    readRows a name.text cells
        (x.source ++ (command "end" ++ (gap.chars ++ (name.source ++ rest))))
      = ⟨inFront cells (x.rows id unplaced), rest, x.log⟩

/-- Cells that are put in front one after the other are put in front together. -/
theorem inFront_inFront {α : Type} (cells cells' : List α) (rows : List (List α)) :
    inFront cells (inFront cells' rows) = inFront (cells ++ cells') rows := by
  cases rows with
  | nil => rfl
  | cons row rows => simp [inFront]

/-- Cells make at least one row. -/
theorem Cells.rows_ne_nil {W P : Type} (width : SpaceName → W) (place : Bool → P) (x : Cells) :
    x.rows width place ≠ [] := by
  cases x with
  | last cell => exact List.cons_ne_nil _ _
  | column cell rest =>
    rw [Cells.rows]
    cases rest.rows width place <;> exact List.cons_ne_nil _ _
  | row cell rest => exact List.cons_ne_nil _ _

theorem inFront_nil {α : Type} {rows : List (List α)} (h : rows ≠ []) : inFront [] rows = rows := by
  obtain ⟨row, rows, rfl⟩ := List.exists_cons_of_ne_nil h
  rfl

section Cells

variable {a : AtomReader} {cell : Expr}

/-- The last cell of a table is read up to the end of the environment, which `skipEnvironmentEnd`
consumes. -/
theorem readBy_last (hcell : cell.ReadBy a) : (Cells.last cell).ReadBy a := by
  intro name gap rest cells
  have hcloses : Closes (cellStops name.text)
      (command "end" ++ (gap.chars ++ (name.source ++ rest))) :=
    .of_environmentEnd (by simp [cellStops]) gap rest
  have hread := hcell.readExpression_eq hcloses
  -- the cell is followed by the end of the environment, neither by an ampersand nor by a new row
  rw [Cells.source, readRows_of_end a name.text cells (by simp [command])]
  · rw [hread, skipEnvironmentEnd_source]
    rfl
  · intro r hr
    rw [hread] at hr
    cases hr
  · intro r hr
    rw [hread] at hr
    cases hr

/-- A cell with an ampersand behind it joins the row in progress, and `readRows` goes on with the
row. -/
theorem readBy_column {rest : Cells} (hcell : cell.ReadBy a) (hrest : rest.ReadBy a) :
    (Cells.column cell rest).ReadBy a := by
  intro name gap after cells
  -- the cell ends at the ampersand
  have hcloses : Closes (cellStops name.text)
      ('&' :: (rest.source ++ (command "end" ++ (gap.chars ++ (name.source ++ after))))) :=
    .of_stop (by decide) .column List.mem_cons_self rfl
  have hread := hcell.readExpression_eq hcloses
  rw [Cells.source, List.append_assoc, List.cons_append,
    readRows_of_column a name.text cells (by simp) (congrArg Reading.rest hread), hread,
    hrest name gap after, Cells.rows, inFront_inFront]
  rfl

/-- A cell with a double backslash behind it is the last one of its row, and `readRows` begins the
next row empty. -/
theorem readBy_row {rest : Cells} (hcell : cell.ReadBy a) (hrest : rest.ReadBy a) :
    (Cells.row cell rest).ReadBy a := by
  intro name gap after cells
  -- the cell ends at the double backslash
  have hcloses : Closes (cellStops name.text)
      ('\\' :: '\\' :: (rest.source ++
        (command "end" ++ (gap.chars ++ (name.source ++ after))))) :=
    .of_stop (by decide) .row (by simp [cellStops]) (by simp [Stop.isAt])
  have hread := hcell.readExpression_eq hcloses
  rw [Cells.source, List.append_assoc, List.cons_append, List.cons_append,
    readRows_of_row a name.text cells (by simp) (congrArg Reading.rest hread), hread,
    hrest name gap after, inFront_nil (rest.rows_ne_nil id unplaced)]
  rfl

end Cells

/-- **A table ends at the end of its own environment.** `readEnvironment` reads the name in braces
first, then the column specification, and the cells with no cell before them. -/
theorem readBy_table {levels : Nat} {gap gap' : Blanks} {environment : Environment}
    {spec : ColumnSpec environment} {cells : Cells} (hcells : cells.ReadBy (atomReader levels)) :
    (Atom.table gap environment spec cells gap').ReadBy (atomReader (levels + 1)) := by
  intro rest _
  -- no cell has been read before the first one
  have hrows := hcells (tableName environment) gap' rest []
  rw [inFront_nil (cells.rows_ne_nil id unplaced)] at hrows
  have hne : (tableName environment).text ≠ [] := by cases environment <;> decide
  have hname : Environment.ofName? (String.ofList (tableName environment).text)
      = some environment := by
    rw [tableName, String.ofList_toList]
    exact Environment.ofName?_name environment
  refine begins_and_read levels "begin" (by decide)
    (gap.chars ++ ((tableName environment).source ++ (spec.source ++ (cells.source ++
      (command "end" ++ (gap'.chars ++ ((tableName environment).source ++ rest)))))))
    (by simp only [Atom.source, List.append_assoc]) ?_ ?_
  · exact Ending.allows_blanks _ gap (by decide) _
  · show readEnvironment (atomReader levels) _ = _
    simp only [readEnvironment, readGroup_source, hne, if_false, hname, spec.skip, readMatrix]
    rw [show environment.name.toList = (tableName environment).text from rfl, hrows]
    rfl

/-! ## Scripts and items

A script begins at its marker, whatever blanks stand before it, and no token goes on there.  So the
end of a base and the end of a first script are known without a look at what comes later. -/

theorem ofMarker?_marker (kind : ScriptKind) :
    ScriptKind.ofMarker? (marker kind) = some kind := by
  cases kind <;> rfl

theorem breaks_marker (kind : ScriptKind) : breaks (marker kind) = true := by
  cases kind <;> decide

theorem skipBlank_marker (gap : Blanks) (kind : ScriptKind) (s : List Char) :
    skipBlank (gap.chars ++ marker kind :: s) = marker kind :: s := by
  rw [skipBlank_blanks, skipBlank_cons (by cases kind <;> decide)]

/-- A base followed by scripts is never made longer by them. -/
theorem Scripts.allows_source {x : Scripts} {ending : Ending} {s : List Char}
    (h : (x.endingAfter ending).allows s = true) : ending.allows (x.source ++ s) = true := by
  cases x with
  | none => exact h
  | one gap kind script =>
    rw [Scripts.source, List.append_assoc, List.cons_append]
    exact ending.allows_blanks gap (breaks_marker kind) _
  | both gap first script gap' script' =>
    rw [Scripts.source, List.append_assoc, List.cons_append]
    exact ending.allows_blanks gap (breaks_marker first) _

section Scripts

variable {a : AtomReader}

/-- No scripts are read where none begins. -/
theorem readBy_none : Scripts.none.ReadBy a := by
  intro base _ rest _ hrest
  rw [Scripts.source, List.nil_append, readScripted, readScripts_of_not_marker a .none hrest]
  rfl

/-- One script is read up to its end, and no other follows it. -/
theorem readBy_one {gap : Blanks} {kind : ScriptKind} {script : Argument}
    (hscript : script.ReadBy a) : (Scripts.one gap kind script).ReadBy a := by
  intro base _ rest hallows hrest
  have hread := hscript.readArgument_eq _ hallows
  rw [Scripts.source, List.append_assoc, List.cons_append, readScripted,
    readScripts_of_marker a (skipBlank_marker gap kind _) (ofMarker?_marker kind)
      (by cases kind <;> rfl), hread, readScripts_of_not_marker a _ hrest]
  cases kind <;> simp [Formula.Scripts.none, Formula.Scripts.set, Formula.Scripts.attach,
    Scripts.attach, scripted, Scripts.log, Reading.map, Reading.after]

/-- Two scripts are read in their order, and `Scripts` keeps the subscript first. -/
theorem readBy_both {gap gap' : Blanks} {first : ScriptKind} {script script' : Argument}
    (hscript : script.ReadBy a) (hscript' : script'.ReadBy a) :
    (Scripts.both gap first script gap' script').ReadBy a := by
  intro base _ rest hallows hrest
  -- the first script ends at the marker of the second one
  have hread := hscript.readArgument_eq
    (gap'.chars ++ marker (otherKind first) :: (script'.source ++ rest))
    (Ending.allows_blanks _ gap' (breaks_marker _) _)
  have hread' := hscript'.readArgument_eq _ hallows
  rw [Scripts.source, List.append_assoc, List.cons_append, List.append_assoc, List.append_assoc,
    List.cons_append, readScripted,
    readScripts_of_marker a (skipBlank_marker gap first _) (ofMarker?_marker first)
      -- the two kinds differ, so whichever comes first the other one has not been found
      (by cases first <;> rfl), hread,
    readScripts_of_marker a (skipBlank_marker gap' _ _) (ofMarker?_marker _)
      (by cases first <;> rfl), hread', readScripts_of_not_marker a _ hrest]
  cases first <;> simp [Formula.Scripts.none, Formula.Scripts.set, Formula.Scripts.attach,
    Scripts.attach, scripted, Scripts.log, otherKind, Reading.map, Reading.after]

/-- Blanks at the end of an expression are skipped, and no item is read behind them
(`Closes.readItems_eq`). -/
theorem readBy_done (gap : Blanks) : (Expr.done gap).ReadBy a := by
  intro stops rest hrest
  have hskip : skipBlank (gap.chars ++ rest) = rest := by
    rw [skipBlank_blanks, hrest.skipBlank_eq]
  refine ⟨?_, ?_⟩
  · intro c t hs
    rw [Expr.source, hskip] at hs
    exact hrest.noMarker c t (by rw [hrest.skipBlank_eq, hs])
  · rw [Expr.source, ← readItems_skipBlank, hskip, hrest.readItems_eq]
    rfl

/-- **An item is read in full**, and `readItems` reads the items after it where it ends. -/
theorem readBy_item {base : Argument} {scripts : Scripts} {rest : Expr}
    (hbase : base.ReadBy a) (hscripts : scripts.ReadBy a) (hrest : rest.ReadBy a)
    (hnext : (scripts.endingAfter base.ending).allows rest.source = true) :
    (Expr.item base scripts rest).ReadBy a := by
  intro stops after hafter
  obtain ⟨hnoMarker, hitems⟩ := hrest stops after hafter
  have hallows : (scripts.endingAfter base.ending).allows (rest.source ++ after) = true := by
    rw [hafter.allows_append]
    exact hnext
  -- the base ends where its scripts begin, and these end where the next item begins
  obtain ⟨hbegins, hread⟩ := hbase _ (Scripts.allows_source hallows)
  have hscripted := hscripts (base.tree id unplaced) base.ending _ hallows hnoMarker
  rw [Expr.source, List.append_assoc, List.append_assoc]
  refine ⟨fun c t hs => hbegins.not_marker hs, ?_⟩
  rw [readItems_of_atom hread (hbegins.not_anyAt stops) hscripted, readItems_skipBlank, hitems]
  simp only [Reading.map, Reading.after, Expr.items, Expr.log, List.append_assoc]

end Scripts

end FormulaMarkup.Notation
