import FormulaMarkup.Formula.Reader
import FormulaMarkup.Proofs.Formula.Ends
import FormulaMarkup.Proofs.Source.Groups
import FormulaMarkup.Proofs.Source.Operations

/-!
# FormulaMarkup — the end of an environment

Whether an environment ends is found out by a look ahead, and its end is consumed elsewhere, without
looking again.  Both agree, so that an environment is closed by an end with its own name and by no
other; an end with another name is passed over.

* **`lookForEnd`** — the look ahead on a cursor, which reads and goes back.
* **`ItemsUpTo`**, **`CellsUpTo`** — how far the loops over items and cells have come.
* **`EndsBehind`** — what has been consumed last is the end of an environment of this name.
* **`MindsEnds`** — how an expression in an environment treats the ends that it meets.
* **`environment_closed_by_own_end`** — all of it, for tables and for other environments.
-/

namespace FormulaMarkup.Formula

open Source Text

/-! ## Looking ahead

The reader asks for an end by reading it and going back, and the stop of an expression asks by
looking at what is left.  On a cursor the first one is the second one. -/

/-- Looks for the end of the environment `name` by reading a command and a group, and goes back. -/
def lookForEnd (name : List Char) (c : Cursor) : Bool × Cursor :=
  if c.atCommand "end".toList then
    (c.readCommand.2.readGroup.1 == name, c.readCommand.2.readGroup.2.restore c.save)
  else (false, c)

/-- **`lookForEnd` leaves the cursor where it was**, and finds what stops an expression
(`Stop.atEnvironmentEnd`). -/
theorem lookForEnd_eq (name : List Char) (c : Cursor) :
    lookForEnd name c = (Stop.atEnvironmentEnd name c.rest, c) := by
  have hinput : c.readCommand.2.readGroup.2.input = c.input :=
    (Cursor.forward_readGroup _).input_eq.trans c.forward_readCommand.input_eq
  have hrestore : c.readCommand.2.readGroup.2.restore c.save = c := by
    rw [Cursor.restore, hinput]
    exact c.restore_save
  rw [lookForEnd, hrestore, Stop.atEnvironmentEnd, Cursor.atCommand]
  cases hend : atCommand "end".toList c.rest with
  | true => rfl
  | false => rfl

/-- `atCommand` finds a command if and only if `readCommand` gives its name, behind a backslash that
is there. -/
theorem atCommand_iff_readCommand {name : List Char} (hne : name ≠ [])
    (hname : ∀ x ∈ name, x.isAlpha = true) (c : Cursor) :
    c.atCommand name = true ↔ c.peek? = some '\\' ∧ c.readCommand.1 = name := by
  obtain ⟨before, rest⟩ := c
  show Source.atCommand name rest = true ↔
    rest.head? = some '\\' ∧ (Source.readCommand rest).1 = name
  cases rest with
  | nil => simp [atCommand]
  | cons x t =>
    by_cases hx : x = '\\'
    · subst hx
      simp [atCommand_eq_readCommand hne hname]
    · simp [atCommand_eq_false hx, hx]

/-! ## The loops

A loop stands in front of an item or a cell and has read what comes before it.  As predicates the
loops can be stopped at any of these places, which is needed to speak of an end that is met on the
way. -/

section Loops

variable (a : AtomReader)

/-- The loop over the items of `s` stands at `p` and has read `nodes`. -/
inductive ItemsUpTo (stops : List Stop) (s : List Char) : List Char → List Formula → Prop where
  | start : ItemsUpTo stops s (skipBlank s) []
  | item {p : List Char} {nodes : List Formula} (h : ItemsUpTo stops s p nodes) (hne : p ≠ [])
      (hstop : Stop.anyAt stops p = false) :
      ItemsUpTo stops s (skipBlank (readItem a p).rest) (nodes ++ (readItem a p).value.toList)

/-- The loop over the cells of `s` stands in front of a cell at `p`.  It has read the rows `rows`
and the cells `cells` of the row in progress. -/
inductive CellsUpTo (environment : List Char) (s : List Char) :
    List Char → List (List Formula) → List Formula → Prop where
  | start : CellsUpTo environment s s [] []
  | column {p r : List Char} {rows : List (List Formula)} {cells : List Formula}
      (h : CellsUpTo environment s p rows cells)
      (hend : (readExpression a (cellStops environment) p).rest = '&' :: r) :
      CellsUpTo environment s r rows
        (cells ++ [(readExpression a (cellStops environment) p).value])
  | row {p r : List Char} {rows : List (List Formula)} {cells : List Formula}
      (h : CellsUpTo environment s p rows cells)
      (hend : (readExpression a (cellStops environment) p).rest = '\\' :: '\\' :: r) :
      CellsUpTo environment s r
        (rows ++ [cells ++ [(readExpression a (cellStops environment) p).value]]) []

end Loops

section

variable {a : AtomReader} {stops : List Stop} {s p : List Char} {nodes cells : List Formula}
  {rows : List (List Formula)} {environment : List Char}

/-- Wherever the loop over the items stands, `skipBlank` has nothing left to skip. -/
theorem ItemsUpTo.skipBlank_eq (h : ItemsUpTo a stops s p nodes) : skipBlank p = p := by
  cases h with
  | start | item _ _ _ => exact skipBlank_skipBlank _

/-- **The items of an expression** are those that have been read and those that `readItems` reads
from there on.  Induction on how far the loop has come (`ItemsUpTo`). -/
theorem readItems_of_itemsUpTo (h : ItemsUpTo a stops s p nodes) :
    (readItems a stops s).value = nodes ++ (readItems a stops p).value ∧
      (readItems a stops s).rest = (readItems a stops p).rest := by
  induction h with
  | start =>
    rw [readItems_skipBlank]
    exact ⟨rfl, rfl⟩
  | @item p nodes h hne hstop ih =>
    obtain ⟨c, t, rfl⟩ := List.exists_cons_of_ne_nil hne
    rw [readItems_of_item a h.skipBlank_eq hstop] at ih
    rw [readItems_skipBlank, ih.1, ih.2, List.append_assoc]
    exact ⟨rfl, rfl⟩

/-- **The loop over the items comes to its end**, where it has read all of them.  Induction on the
items that `readItems` has still to read. -/
theorem ItemsUpTo.readItems {t : List Char} (h : ItemsUpTo a stops s (skipBlank t) nodes) :
    ItemsUpTo a stops s (readItems a stops t).rest (nodes ++ (readItems a stops t).value) := by
  revert nodes
  fun_induction Formula.readItems a stops t with
  | case1 t hskip =>
    intro nodes h
    rw [hskip] at h
    rwa [List.append_nil]
  | case2 t c u hskip hstop =>
    intro nodes h
    rw [hskip] at h
    rwa [List.append_nil]
  | case3 t c u hskip hstop item =>
    -- the loop takes one more item
    rename_i ih
    intro nodes h
    rw [hskip] at h
    have hnext := ih (h.item (List.cons_ne_nil c u) (by simpa using hstop))
    rw [List.append_assoc] at hnext
    exact hnext

/-- **The rows of a table** are those that have been read and those that `readRows` reads from there
on.  Induction on how far the loop has come (`CellsUpTo`); an ampersand adds a cell, a double
backslash a row. -/
theorem readRows_of_cellsUpTo (h : CellsUpTo a environment s p rows cells) :
    (readRows a environment [] s).value = rows ++ (readRows a environment cells p).value ∧
      (readRows a environment [] s).rest = (readRows a environment cells p).rest := by
  -- a separator has been found, so there was something to read
  have hne : ∀ {p r : List Char} {c : Char},
      (readExpression a (cellStops environment) p).rest = c :: r → p ≠ [] := by
    rintro p r c hend rfl
    have hsuffix := readExpression_suffix a (cellStops environment) []
    rw [hend] at hsuffix
    cases List.suffix_nil.mp hsuffix
  induction h with
  | start => exact ⟨rfl, rfl⟩
  | column h hend ih =>
    rw [readRows_of_column a environment _ (hne hend) hend] at ih
    exact ih
  | row h hend ih =>
    rw [readRows_of_row a environment _ (hne hend) hend] at ih
    rw [ih.1, ih.2, List.append_assoc]
    exact ⟨rfl, rfl⟩

end

/-! ## Ends that are met

In a table the other stops are separators, and they do not begin like the end of an environment.  So
at an end only its name decides whether the expression stops or passes over it. -/

/-- What stops an expression in an environment: its end and, in a table, what separates the
cells. -/
def EnvironmentStops (name : List Char) (stops : List Stop) : Prop :=
  .environmentEnd name ∈ stops ∧
    ∀ stop ∈ stops, stop = .column ∨ stop = .row ∨ stop = .environmentEnd name

theorem environmentStops_cellStops (name : List Char) :
    EnvironmentStops name (cellStops name) := by
  simp [EnvironmentStops, cellStops]

theorem environmentStops_singleton (name : List Char) :
    EnvironmentStops name [.environmentEnd name] := by
  simp [EnvironmentStops]

/-- At the end of an environment only its name decides, since no other stop in `EnvironmentStops`
begins with the command. -/
theorem EnvironmentStops.anyAt_eq {name : List Char} {stops : List Stop}
    (h : EnvironmentStops name stops) {p : List Char} (hend : atCommand "end".toList p = true) :
    Stop.anyAt stops p = Stop.atEnvironmentEnd name p := by
  obtain ⟨t, rfl, -⟩ := atCommand_iff.mp hend
  rw [Bool.eq_iff_iff, Stop.anyAt, List.any_eq_true]
  constructor
  · rintro ⟨stop, hmem, hat⟩
    rcases h.2 stop hmem with rfl | rfl | rfl
    · cases hat
    · cases hat
    · exact hat
  · exact fun hat => ⟨_, h.1, hat⟩

/-- At the end of an environment `readItem` finds a stray token, because no atom starts there: no
node stands for it, its group is consumed, and the log tells its name. -/
theorem readItem_end (levels : Nat) {p : List Char} (hend : atCommand "end".toList p = true) :
    readItem (atomReader levels) p =
      ⟨none, skipEnvironmentEnd p, [.strayEnd (readGroup (readCommand p).2).1]⟩ := by
  rw [skipEnvironmentEnd, if_pos hend]
  obtain ⟨t, rfl, -⟩ := atCommand_iff.mp hend
  have hstarts : startsAtom ('\\' :: ("end".toList ++ t)) = false := by
    rw [startsAtom, hend]
    simp
  rw [readItem, read_of_not_startsAtom levels hstarts]
  have hmarker : ScriptKind.ofMarker? '\\' = none := by decide
  show readStray _ ('\\' :: ("end".toList ++ t)) = _
  rw [readStray_of_not_marker _ hmarker, if_neg (by decide), if_pos rfl,
    if_neg (by simp), if_pos hend]

/-- How an expression in the environment `name` treats the ends that its loop meets. -/
structure MindsEnds (a : AtomReader) (stops : List Stop) (name s : List Char) : Prop where
  /-- Its loop goes on to where it stops. -/
  whole : ItemsUpTo a stops s (readExpression a stops s).rest (readItems a stops s).value
  /-- It stops at an end with this name. -/
  own : ∀ p nodes, ItemsUpTo a stops s p nodes → Stop.atEnvironmentEnd name p = true →
    (readExpression a stops s).value = .ofItems nodes ∧ (readExpression a stops s).rest = p
  /-- Any other end is passed over with its group, and no node stands for it. -/
  other : ∀ p nodes, ItemsUpTo a stops s p nodes → atCommand "end".toList p = true →
    (readGroup (readCommand p).2).1 ≠ name →
    (readExpression a stops s).value =
        .ofItems (nodes ++ (readItems a stops (readGroup (readCommand p).2).2).value) ∧
      (readExpression a stops s).rest = (readItems a stops (readGroup (readCommand p).2).2).rest

/-- **An expression in an environment minds the ends it meets** (`MindsEnds`), at every place of its
loop and on every level. -/
theorem mindsEnds (levels : Nat) {name : List Char} {stops : List Stop}
    (hstops : EnvironmentStops name stops) (s : List Char) :
    MindsEnds (atomReader levels) stops name s where
  -- the loop has read all of its items where the expression ends
  whole := ItemsUpTo.start.readItems
  own p nodes hp hat := by
    have hend : atCommand "end".toList p = true := (Bool.and_eq_true_iff.mp hat).1
    have hitems := readItems_of_itemsUpTo hp
    obtain ⟨t, rfl, -⟩ := atCommand_iff.mp hend
    rw [readItems_of_stop _ hp.skipBlank_eq ((hstops.anyAt_eq hend).trans hat)] at hitems
    rw [readExpression, Reading.map, hitems.1, hitems.2, List.append_nil]
    exact ⟨rfl, rfl⟩
  other p nodes hp hend hname := by
    have hat : Stop.atEnvironmentEnd name p = false := by simp [Stop.atEnvironmentEnd, hname]
    have hitems := readItems_of_itemsUpTo hp
    have hskip : skipEnvironmentEnd p = (readGroup (readCommand p).2).2 := if_pos hend
    have hitem := readItem_end levels hend
    obtain ⟨t, rfl, -⟩ := atCommand_iff.mp hend
    -- no stop is here, so the end is an item, for which no node stands
    rw [readItems_of_item _ hp.skipBlank_eq ((hstops.anyAt_eq hend).trans hat), hitem, hskip]
      at hitems
    rw [readExpression, Reading.map, hitems.1, hitems.2]
    exact ⟨rfl, rfl⟩

/-! ## What has been consumed last

The name is compared while looking ahead, and the end is consumed afterwards without comparing it
again.  That the consumed text is the one with the right name is read off the text itself. -/

/-- Between `s` and `rest`, what has been consumed last is the end of the environment `name`: the
command, blanks, and a closed group that has the name as its text. -/
def EndsBehind (name s rest : List Char) : Prop :=
  Balanced name ∧ ∃ front gap, (∀ c ∈ gap, isBlank c = true) ∧
    s = front ++ '\\' :: ("end".toList ++ (gap ++ '{' :: (name ++ '}' :: rest)))

/-- `EndsBehind` speaks of what has been consumed last, so more may have been consumed before. -/
theorem EndsBehind.of_suffix {name s t rest : List Char} (h : EndsBehind name t rest)
    (hsuffix : t <:+ s) : EndsBehind name s rest := by
  obtain ⟨hbalanced, front, gap, hgap, rfl⟩ := h
  obtain ⟨u, rfl⟩ := hsuffix
  exact ⟨hbalanced, u ++ front, gap, hgap, (List.append_assoc u front _).symm⟩

/-- **What `skipEnvironmentEnd` consumes is what was looked for**: the end at which the look ahead
has found the name.  Since something is left, its group is closed. -/
theorem endsBehind_skipEnvironmentEnd {name s : List Char} (hne : name ≠ [])
    (hat : Stop.atEnvironmentEnd name s = true) (hrest : skipEnvironmentEnd s ≠ []) :
    EndsBehind name s (skipEnvironmentEnd s) := by
  obtain ⟨hend, hname⟩ := Bool.and_eq_true_iff.mp hat
  rw [beq_iff_eq] at hname
  rw [skipEnvironmentEnd, if_pos hend] at hrest ⊢
  obtain ⟨t, rfl, ht⟩ := atCommand_iff.mp hend
  rw [readCommand_end ht] at hname hrest ⊢
  obtain ⟨hbalanced, gap, hgap, hsplit⟩ := readGroup_closed (hname ▸ hne) hrest
  rw [hname] at hbalanced hsplit
  exact ⟨hbalanced, [], gap, hgap, by rw [List.nil_append, ← hsplit]⟩

/-- An expression of which something is left, and not at a separator, is at the end of its
environment, as by `readExpression_end` it can only end at one of its stops. -/
theorem EnvironmentStops.rest_atEnvironmentEnd {name : List Char} {stops : List Stop}
    (h : EnvironmentStops name stops) (a : AtomReader) (s : List Char)
    (hne : (readExpression a stops s).rest ≠ [])
    (hcolumn : .column ∈ stops → ∀ r, (readExpression a stops s).rest ≠ '&' :: r)
    (hrow : .row ∈ stops → ∀ r, (readExpression a stops s).rest ≠ '\\' :: '\\' :: r) :
    Stop.atEnvironmentEnd name (readExpression a stops s).rest = true := by
  obtain ⟨stop, hmem, hstands⟩ := (readExpression_end a stops s).resolve_left hne
  generalize (readExpression a stops s).rest = rest at *
  rcases h.2 stop hmem with rfl | rfl | rfl
  · cases hstands with
    | column t => exact absurd rfl (hcolumn hmem t)
  · cases hstands with
    | row t => exact absurd rfl (hrow hmem t)
  · exact (Stop.isAt_iff _ _).mpr hstands

/-- Where `skipEnvironmentEnd` leaves something, there was something before it. -/
theorem ne_nil_of_skipEnvironmentEnd {s : List Char} (h : skipEnvironmentEnd s ≠ []) : s ≠ [] := by
  rintro rfl
  exact h rfl

/-- **A table is closed by its own end**, if anything is left behind it.  Induction on the loop of
`readRows` over the cells; only its last turn consumes an end. -/
theorem readRows_endsBehind (a : AtomReader) {environment : List Char} (hname : environment ≠ [])
    (cells : List Formula) (s : List Char) (hrest : (readRows a environment cells s).rest ≠ []) :
    EndsBehind environment s (readRows a environment cells s).rest := by
  fun_induction readRows a environment cells s with
  -- a table at the end of the input leaves nothing
  | case1 => exact absurd rfl hrest
  | case2 cells c t cell cells' r h ih =>
    -- a column mark or a line break is passed over, and the other cells end behind the own end
    have hsuffix := readExpression_suffix a (cellStops environment) (c :: t)
    exact (ih hrest).of_suffix ((List.suffix_cons _ _).trans (h ▸ hsuffix))
  | case3 cells c t cell cells' r h ih =>
    have hsuffix := readExpression_suffix a (cellStops environment) (c :: t)
    exact (ih hrest).of_suffix
      ((List.suffix_cons _ _).trans ((List.suffix_cons _ _).trans (h ▸ hsuffix)))
  | case4 cells c t cell cells' hcolumn hrow =>
    -- the last cell stops at the end of the environment, since nothing else is left to stop at
    have hat := (environmentStops_cellStops environment).rest_atEnvironmentEnd a (c :: t)
      (ne_nil_of_skipEnvironmentEnd hrest) (fun _ => hcolumn) (fun _ => hrow)
    exact (endsBehind_skipEnvironmentEnd hname hat hrest).of_suffix
      (readExpression_suffix a (cellStops environment) (c :: t))

/-- The environments that make tables have names. -/
theorem environmentName_ne_nil (environment : Environment) : environment.name.toList ≠ [] := by
  cases environment <;> decide

/-- **An environment is closed by its own end only.** Looking for a command (`atCommand`) is reading
it and comparing names, and the look ahead for an end goes back to where it was.  If something is
left behind a table, or behind another environment with a name, then what has been consumed last is
an end with the name of that environment; all other ends that are met in the body are passed over
with their groups. -/
theorem environment_closed_by_own_end (levels : Nat) (s : List Char) :
    (∀ (name : List Char) (c : Cursor), name ≠ [] → (∀ x ∈ name, x.isAlpha = true) →
      (c.atCommand name = true ↔ c.peek? = some '\\' ∧ c.readCommand.1 = name)) ∧
    (∀ (name : List Char) (c : Cursor),
      lookForEnd name c = (Stop.atEnvironmentEnd name c.rest, c)) ∧
    (∀ environment : Environment,
      let name := environment.name.toList
      let table := readMatrix (atomReader levels) environment s
      (table.rest ≠ [] → EndsBehind name s table.rest) ∧
      ∀ p rows cells, CellsUpTo (atomReader levels) name s p rows cells →
        table.value = .matrix (rows ++ (readRows (atomReader levels) name cells p).value)
          environment.opening environment.closing ∧
        MindsEnds (atomReader levels) (cellStops name) name p) ∧
    ((readGroup s).1 ≠ [] → Environment.ofName? (String.ofList (readGroup s).1) = none →
      let name := (readGroup s).1
      let body := readExpression (atomReader levels) [.environmentEnd name] (readGroup s).2
      let read := readEnvironment (atomReader levels) s
      read.value = body.value ∧
      (read.rest ≠ [] → EndsBehind name (readGroup s).2 read.rest) ∧
      MindsEnds (atomReader levels) [.environmentEnd name] name (readGroup s).2) := by
  refine ⟨fun name c hne hname => atCommand_iff_readCommand hne hname c, lookForEnd_eq, ?_, ?_⟩
  · -- tables, whose stops are those of a cell
    intro environment name table
    have hstops := environmentStops_cellStops name
    have hname := environmentName_ne_nil environment
    refine ⟨readRows_endsBehind _ hname [] s, fun p rows cells hcells => ?_⟩
    have hvalue := (readRows_of_cellsUpTo hcells).1
    refine ⟨?_, mindsEnds levels hstops p⟩
    show Node.matrix (readRows (atomReader levels) name [] s).value _ _ = _
    rw [hvalue]
  · -- environments of another name, whose only stop is their own end
    intro hname hother name body read
    have hstops := environmentStops_singleton name
    have hread : read = ⟨body.value, skipEnvironmentEnd body.rest,
        .unknownEnvironment name :: body.log⟩ := by
      simp only [read, readEnvironment, hname, hother, if_false]
      rfl
    rw [hread]
    refine ⟨rfl, fun hrest => ?_, mindsEnds levels hstops _⟩
    have hat := hstops.rest_atEnvironmentEnd (atomReader levels) (readGroup s).2
      (ne_nil_of_skipEnvironmentEnd hrest) (by simp) (by simp)
    exact (endsBehind_skipEnvironmentEnd hname hat hrest).of_suffix (readExpression_suffix _ _ _)

/-- A table with an end of another name in a cell. -/
def mixedTable : List Char := "a&\\end\x7bcases\x7db\\\\\\endx\\end \x7bmatrix\x7dc".toList

/-- An environment whose body starts with an end of another name. -/
def mixedBody : List Char := "\x7bq\x7b\x7d\x7d\\end\x7br\x7db\\end\n\x7bq\x7b\x7d\x7dc".toList

/-- Both environments meet an end of another name, pass over it, and are closed by their own one. -/
theorem environment_closed_by_own_end_mixed :
    (readMatrix (atomReader 3) .matrix mixedTable).rest ≠ [] ∧
    EndsBehind "matrix".toList mixedTable (readMatrix (atomReader 3) .matrix mixedTable).rest ∧
    (readGroup mixedBody).1 ≠ [] ∧
    Environment.ofName? (String.ofList (readGroup mixedBody).1) = none ∧
    (readEnvironment (atomReader 3) mixedBody).rest ≠ [] ∧
    EndsBehind (readGroup mixedBody).1 (readGroup mixedBody).2
      (readEnvironment (atomReader 3) mixedBody).rest := by
  have htable : (readMatrix (atomReader 3) .matrix mixedTable).rest ≠ [] := by decide +kernel
  have hname : (readGroup mixedBody).1 ≠ [] := by decide +kernel
  have hother : Environment.ofName? (String.ofList (readGroup mixedBody).1) = none := by
    decide +kernel
  have hbody : (readEnvironment (atomReader 3) mixedBody).rest ≠ [] := by decide +kernel
  exact ⟨htable, ((environment_closed_by_own_end 3 mixedTable).2.2.1 .matrix).1 htable, hname,
    hother, hbody, ((environment_closed_by_own_end 3 mixedBody).2.2.2 hname hother).2.1 hbody⟩

end FormulaMarkup.Formula
