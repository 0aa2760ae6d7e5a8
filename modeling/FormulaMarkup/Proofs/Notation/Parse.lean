import FormulaMarkup.Proofs.Node
import FormulaMarkup.Proofs.Notation.Runs

/-!
# FormulaMarkup — the notation is read as it is meant

From one construct to all of them, and from the formula that is read to its layout.

* **`Expr.readBy`** and its neighbours — every construct is read as its tree if its tokens are kept
  apart and it is not nested too deeply.
* **`Expr.relabel_items`** and its neighbours — the tree under given widths and places is the
  relabelled tree of names.
* **`parse_source`** — a written formula is parsed as the layout that it stands for.
-/

namespace FormulaMarkup.Notation

open Formula

/-! ## Every construct

A mutual induction over the five sorts, with one lemma of `Atoms` or `Runs` for each constructor.
The number of levels is any that the depth allows, and an atom takes one of them for its parts. -/

theorem Atom.depth_pos (x : Atom) : 0 < x.depth := by
  cases x <;> simp [Atom.depth]

mutual

/-- **Every atom is read as its tree**, if its tokens are `separated` and there are levels enough
for it.  Recursion on the atom, along with `Argument`, `Scripts`, `Expr` and `Cells`; each construct
has its own lemma, and uses up one level. -/
theorem Atom.readBy (x : Atom) {levels : Nat} (hdepth : x.depth ≤ levels)
    (hsep : x.separated = true) : x.ReadBy (atomReader levels) := by
  -- an atom needs a level of its own, and its parts are read with the others
  obtain ⟨levels, rfl⟩ : ∃ l, levels = l + 1 :=
    ⟨levels - 1, by have := x.depth_pos; omega⟩
  match x with
  | .numeral n => exact readBy_numeral levels n
  | .letters l => exact readBy_letters levels l
  | .ordinary o => exact readBy_ordinary levels o
  | .named c => exact readBy_named levels c
  | .verbatim kind gap text => exact readBy_verbatim levels kind gap text
  | .group body =>
    simp only [Atom.depth] at hdepth
    exact readBy_group (body.readBy (by omega) hsep)
  | .fraction style numerator denominator =>
    simp only [Atom.depth] at hdepth
    simp only [Atom.separated, Bool.and_eq_true] at hsep
    obtain ⟨⟨⟨hword, hnumerator⟩, hnext⟩, hdenominator⟩ := hsep
    exact readBy_fraction (numerator.readBy (by omega) hnumerator)
      (denominator.readBy (by omega) hdenominator) hword hnext
  | .squareRoot body =>
    simp only [Atom.depth] at hdepth
    simp only [Atom.separated, Bool.and_eq_true] at hsep
    exact readBy_squareRoot (body.readBy (by omega) hsep.2) hsep.1
  | .root gap index body =>
    simp only [Atom.depth] at hdepth
    simp only [Atom.separated, Bool.and_eq_true] at hsep
    exact readBy_root (index.readBy (by omega) hsep.1) (body.readBy (by omega) hsep.2)
  | .modified modifier body =>
    simp only [Atom.depth] at hdepth
    simp only [Atom.separated, Bool.and_eq_true] at hsep
    exact readBy_modified (body.readBy (by omega) hsep.2) hsep.1
  | .fenced gap opening body gap' closing =>
    simp only [Atom.depth] at hdepth
    simp only [Atom.separated, Bool.and_eq_true] at hsep
    obtain ⟨⟨⟨hword, hnext⟩, hbody⟩, hword'⟩ := hsep
    exact readBy_fenced (body.readBy (by omega) hbody) hword hnext hword'
  | .table gap environment spec cells gap' =>
    simp only [Atom.depth] at hdepth
    exact readBy_table (cells.readBy (by omega) hsep)
  | .environment gap environment body gap' =>
    simp only [Atom.depth] at hdepth
    exact readBy_environment (body.readBy (by omega) hsep)

theorem Argument.readBy (x : Argument) {levels : Nat} (hdepth : x.depth ≤ levels)
    (hsep : x.separated = true) : x.ReadBy (atomReader levels) := by
  match x with
  | .mk gap atom => exact readBy_mk (atom.readBy hdepth hsep)

/-- Every pair of scripts, and every single one, is attached to its base (`Scripts.attach`). -/
theorem Scripts.readBy (x : Scripts) {levels : Nat} (hdepth : x.depth ≤ levels)
    (hsep : x.separated = true) : x.ReadBy (atomReader levels) := by
  match x with
  | .none => exact readBy_none
  | .one gap kind script => exact readBy_one (script.readBy hdepth hsep)
  | .both gap first script gap' script' =>
    simp only [Scripts.depth] at hdepth
    simp only [Scripts.separated, Bool.and_eq_true] at hsep
    exact readBy_both (script.readBy (by omega) hsep.1) (script'.readBy (by omega) hsep.2)

/-- **Every expression is read as its `items`**, up to any place where an expression ends. -/
theorem Expr.readBy (x : Expr) {levels : Nat} (hdepth : x.depth ≤ levels)
    (hsep : x.separated = true) : x.ReadBy (atomReader levels) := by
  match x with
  | .done gap => exact readBy_done gap
  | .item base scripts rest =>
    simp only [Expr.depth] at hdepth
    simp only [Expr.separated, Bool.and_eq_true] at hsep
    obtain ⟨⟨⟨hbase, hscripts⟩, hnext⟩, hrest⟩ := hsep
    exact readBy_item (base.readBy (by omega) hbase) (scripts.readBy (by omega) hscripts)
      (rest.readBy (by omega) hrest) hnext

/-- All cells are read as their `rows`, up to the end of the environment. -/
theorem Cells.readBy (x : Cells) {levels : Nat} (hdepth : x.depth ≤ levels)
    (hsep : x.separated = true) : x.ReadBy (atomReader levels) := by
  match x with
  | .last cell => exact readBy_last (cell.readBy hdepth hsep)
  | .column cell rest =>
    simp only [Cells.depth] at hdepth
    simp only [Cells.separated, Bool.and_eq_true] at hsep
    exact readBy_column (cell.readBy (by omega) hsep.1) (rest.readBy (by omega) hsep.2)
  | .row cell rest =>
    simp only [Cells.depth] at hdepth
    simp only [Cells.separated, Bool.and_eq_true] at hsep
    exact readBy_row (cell.readBy (by omega) hsep.1) (rest.readBy (by omega) hsep.2)

end

/-! ## Widths and places

Reading gives a tree with names of spaces and no places for scripts, and laying out puts them in.
The tree of the notation is defined for any labels, so both orders have to agree: a mutual induction
once more, with one equation for each constructor. -/

section Relabel

variable {W P W' P' : Type} (width : W → W') (placement : Bool → P → P')

/-- The items of two lists are relabelled each for itself. -/
theorem relabelAll_append (cells cells' : List (Node W P)) :
    Node.relabelAll width placement (cells ++ cells')
      = Node.relabelAll width placement cells ++ Node.relabelAll width placement cells' := by
  induction cells with
  | nil => rfl
  | cons cell cells ih => simp only [List.cons_append, Node.relabelAll, ih]

/-- Cells in front of some rows are relabelled each for itself. -/
theorem relabelRows_inFront (cells : List (Node W P)) (rows : List (List (Node W P))) :
    Node.relabelRows width placement (inFront cells rows)
      = inFront (Node.relabelAll width placement cells)
          (Node.relabelRows width placement rows) := by
  cases rows with
  | nil => rfl
  | cons row rows => simp only [inFront, Node.relabelRows, relabelAll_append]

end Relabel

section Tree

variable {W P : Type} (width : SpaceName → W) (place : Bool → P)

/-- A base with scripts is relabelled in its parts; whether the base is large does not change with
it. -/
theorem relabel_scripted (base : Formula) (first : ScriptKind) (script : Formula)
    (other : Option Formula) :
    (scripted unplaced base first script other).relabel width (fun large _ => place large)
      = scripted place (base.relabel width fun large _ => place large) first
          (script.relabel width fun large _ => place large)
          (Node.relabelOption width (fun large _ => place large) other) := by
  cases first <;> simp only [scripted, Node.relabel, Node.relabelOption,
    Node.isLargeOperator_relabel]

mutual

/-- The tree of names of an atom, relabelled, is its tree under the labels.  Recursion on the atom,
along with `Argument`, `Scripts`, `Expr` and `Cells`: each construct hands the labels on to its
parts. -/
theorem Atom.relabel_tree (x : Atom) :
    (x.tree id unplaced).relabel width (fun large _ => place large) = x.tree width place := by
  match x with
  | .numeral _ => rfl
  | .letters _ => rfl
  | .ordinary _ => rfl
  | .verbatim _ _ _ => rfl
  | .named c =>
    -- a name stands for one node, whichever table it is from
    cases c with
    | symbol name symbol known => cases symbol <;> rfl
    | _ => rfl
  | .group body => rw [Atom.tree, Node.relabel_ofItems, body.relabel_items]; rfl
  | .fraction _ numerator denominator =>
    simp only [Atom.tree, Node.relabel, numerator.relabel_tree, denominator.relabel_tree]
  | .squareRoot body => simp only [Atom.tree, Node.relabel, Node.relabelOption, body.relabel_tree]
  | .root _ index body =>
    simp only [Atom.tree, Node.relabel, Node.relabelOption, Node.relabel_ofItems,
      index.relabel_items, body.relabel_tree]
  | .modified modifier body =>
    cases modifier <;> simp only [Atom.tree, Modifier.apply, Node.relabel, body.relabel_tree]
  | .fenced _ _ body _ _ =>
    simp only [Atom.tree, Node.relabel, Node.relabel_ofItems, body.relabel_items]
  | .table _ _ _ cells _ => simp only [Atom.tree, Node.relabel, cells.relabel_rows]
  | .environment _ _ body _ => rw [Atom.tree, Node.relabel_ofItems, body.relabel_items]; rfl

theorem Argument.relabel_tree (x : Argument) :
    (x.tree id unplaced).relabel width (fun large _ => place large) = x.tree width place := by
  match x with
  | .mk _ atom => exact atom.relabel_tree

/-- A base with scripts, relabelled, is the relabelled base with the relabelled scripts. -/
theorem Scripts.relabel_attach (x : Scripts) (base : Formula) :
    (x.attach id unplaced base).relabel width (fun large _ => place large)
      = x.attach width place (base.relabel width fun large _ => place large) := by
  match x with
  | .none => rfl
  | .one _ kind script =>
    simp only [Scripts.attach, relabel_scripted, Node.relabelOption, script.relabel_tree]
  | .both _ first script _ script' =>
    simp only [Scripts.attach, relabel_scripted, Node.relabelOption, script.relabel_tree,
      script'.relabel_tree]

/-- The items of an expression under the labels are the items of its tree of names, relabelled. -/
theorem Expr.relabel_items (x : Expr) :
    Node.relabelAll width (fun large _ => place large) (x.items id unplaced)
      = x.items width place := by
  match x with
  | .done _ => rfl
  | .item base scripts rest =>
    simp only [Expr.items, Node.relabelAll, scripts.relabel_attach, base.relabel_tree,
      rest.relabel_items]

/-- The rows of some cells under the labels are the rows of their trees of names, relabelled. -/
theorem Cells.relabel_rows (x : Cells) :
    Node.relabelRows width (fun large _ => place large) (x.rows id unplaced)
      = x.rows width place := by
  match x with
  | .last cell =>
    simp only [Cells.rows, Node.relabelRows, Node.relabelAll, Node.relabel_ofItems,
      cell.relabel_items]
  | .column cell rest =>
    simp only [Cells.rows, relabelRows_inFront, Node.relabelAll, Node.relabel_ofItems,
      cell.relabel_items, rest.relabel_rows]
  | .row cell rest =>
    simp only [Cells.rows, Node.relabelRows, Node.relabelAll, Node.relabel_ofItems,
      cell.relabel_items, rest.relabel_rows]

end

end Tree

/-! ## The parser

The parser reads a source as an expression that nothing stops and lays it out. -/

/-- **A written formula is parsed as the layout that it stands for**, if its tokens are `separated`
and its `depth` is within `maxNesting`.  Nothing of it is left, and the only guesses are the names
in it that nobody knows. -/
theorem parse_source (config : Config) (x : Expr) (hsep : x.separated = true)
    (hdepth : x.depth ≤ maxNesting) :
    parse config x.source
      = ⟨x.tree (SpaceName.width config) (scriptPlacement config), [], x.log⟩ := by
  have hread : readExpression (atomReader maxNesting) [] (x.source ++ [])
      = ⟨x.tree id unplaced, [], x.log⟩ :=
    (x.readBy hdepth hsep).readExpression_eq (.inl rfl)
  rw [List.append_nil] at hread
  -- laying out replaces the names of spaces by widths and gives scripts their places
  have hlayOut : layOut config (x.tree id unplaced)
      = x.tree (SpaceName.width config) (scriptPlacement config) := by
    rw [layOut, Expr.tree, Node.relabel_ofItems, x.relabel_items]
    rfl
  rw [parse, Formula.read, hread, Reading.map, hlayOut]

/-- A fraction whose denominator is a single token, and a sum with an index after a blank. -/
def fractionAndSum : Expr :=
  let tight : Blanks := ⟨[], by decide⟩
  let blank : Blanks := ⟨[' '], by decide⟩
  .item
    (.mk tight (.fraction .inherit
      (.mk tight (.group
        (.item (.mk blank (.letters ⟨['a'], by decide, by decide⟩)) .none (.done tight))))
      (.mk tight (.numeral ⟨['2'], .none, by decide, by decide, by decide⟩))))
    .none
    (.item (.mk tight (.named (.symbol "sum" (.largeOperator "∑") rfl)))
      (.one blank .sub (.mk tight (.letters ⟨['i'], by decide, by decide⟩)))
      (.done blank))

/-- The expression keeps its tokens apart and is one of the notation; its text is parsed as its
tree. -/
theorem parse_source_fractionAndSum :
    fractionAndSum.separated = true ∧ fractionAndSum.depth ≤ maxNesting ∧
      fractionAndSum.source = "\\frac\x7b a\x7d2\\sum _i ".toList ∧
      parse .standard fractionAndSum.source =
        ⟨.row [.fraction (.identifier "a" false) (.number "2") .inherit,
          .scripted (.operator "∑" true) (some (.identifier "i" false)) none .underOver], [], []⟩ :=
  ⟨by decide, by decide, by decide, parse_source .standard fractionAndSum (by decide) (by decide)⟩

end FormulaMarkup.Notation
