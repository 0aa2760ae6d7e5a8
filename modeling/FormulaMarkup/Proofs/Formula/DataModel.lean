import FormulaMarkup.Convert
import FormulaMarkup.Proofs.Formula.Trees

/-!
# FormulaMarkup — the data model of layouts

The type of trees allows more than is ever read.  A row of one part is never built, a base has its
scripts at its side unless it is a large operator, a number consists of digits, and so on.

The demands on a node are collected in `Conforms`, and everything that is read meets them because of
the construct that it is (`IsBody`, `IsItem`, `IsExpression`).  The reader itself does not come up
here: it has been left behind with `isExpression_read`.

* **`Conforms`** — what the data model demands of a node.
* **`everywhere_of_isBody`** — an atom conforms if the atoms in it do.
* **`everywhere_parse`** — every node of the tree of every source conforms.
-/

namespace FormulaMarkup.Formula

open Source

/-- What the data model demands of a node itself, whatever its `parts` are.  `Everywhere Conforms`
is the invariant of whole trees. -/
def Conforms (config : Config) : Layout → Prop
  | .row children => children.length ≠ 1
  | .identifier text upright => text ≠ "" ∧ (upright = true → text ∈ functions)
  | .number text => IsNumber text
  | .operator text large =>
    text.toList.length = 1 ∧ (large = true → text ∈ largeOperators.map Prod.snd)
  | .scripted base sub sup placement =>
    (sub.isSome = true ∨ sup.isSome = true) ∧
      (placement = .underOver ↔
        (∃ glyph, base = .operator glyph true) ∧ config.useMunderover = true)
  | .fenced opening closing _ => opening.toList.length ≤ 1 ∧ closing.toList.length ≤ 1
  | .matrix rows opening closing =>
    (∀ row ∈ rows, row ≠ []) ∧
      ∃ environment : Environment,
        opening = environment.opening ∧ closing = environment.closing
  | .space width =>
    width ∈ [config.thinSpace, config.mediumSpace, config.thickSpace, config.quad, config.qquad,
      -config.thinSpace]
  | .text _ _ | .fraction _ _ _ | .radical _ _ | .accent _ _ _ | .styled _ _ | .phantom _
  | .lineBreak => True

/-! ## Placement and widths

Two of the demands are about labels, which laying out puts in: the side of a base on which scripts
go and the width of a space. -/

/-- `isLargeOperator` holds of an operator that has been marked as large, and of nothing else. -/
theorem isLargeOperator_iff {W P : Type} {node : Node W P} :
    node.isLargeOperator = true ↔ ∃ glyph, node = .operator glyph true := by
  constructor
  · intro h
    cases node with
    | operator glyph large => exact ⟨glyph, by rw [show large = true from h]⟩
    | _ => cases h
  · rintro ⟨glyph, rfl⟩
    rfl

/-- `layOut` leaves a formula a large operator, or none, since it only exchanges labels. -/
theorem layOut_eq_operator_iff {config : Config} {f : Formula} :
    (∃ glyph, layOut config f = .operator glyph true) ↔ f.isLargeOperator = true := by
  rw [← isLargeOperator_iff]
  cases f <;> exact Iff.rfl

/-- Scripts go above and below (`.underOver`) exactly if the base is large and the configuration
wants it. -/
theorem scriptPlacement_eq_underOver_iff {config : Config} {largeBase : Bool} :
    scriptPlacement config largeBase = .underOver ↔
      largeBase = true ∧ config.useMunderover = true := by
  rw [← Bool.and_eq_true, scriptPlacement]
  split
  · next h => exact ⟨fun _ => h, fun _ => rfl⟩
  · next h =>
    refine ⟨fun hplace => ?_, fun hlarge => absurd hlarge h⟩
    cases hplace

/-- `SpaceName.width` is one of the widths of the configuration, or the thin one to the left. -/
theorem width_mem (config : Config) (name : SpaceName) :
    name.width config ∈ [config.thinSpace, config.mediumSpace, config.thickSpace, config.quad,
      config.qquad, -config.thinSpace] := by
  cases name <;> simp [SpaceName.width]

/-! ## From the parts to the node

Each construct conforms if its parts do.  The proofs follow the grammar of `Trees`, one lemma for
each of its layers, with the atoms given. -/

variable {config : Config}

/-- A tree conforms if its root does and the parts of the formula do, once they are laid out.  So an
induction over the formula, by `IsBody.parts`, is one over its layout. -/
theorem everywhere_of_parts {f : Formula} (here : Conforms config (layOut config f))
    (below : ∀ part ∈ f.parts, (layOut config part).Everywhere (Conforms config)) :
    (layOut config f).Everywhere (Conforms config) := by
  refine .intro _ here fun part hpart => ?_
  rw [layOut, Node.parts_relabel] at hpart
  obtain ⟨part, hmem, rfl⟩ := List.mem_map.mp hpart
  exact below part hmem

/-- A row without parts conforms. -/
theorem everywhere_emptyRow : (layOut config .emptyRow).Everywhere (Conforms config) :=
  everywhere_of_parts (Nat.zero_ne_one) fun _ hpart => absurd hpart List.not_mem_nil

section Grammar

variable {atom : Formula → Prop}
  (hatom : ∀ f, atom f → (layOut config f).Everywhere (Conforms config))
include hatom

/-- An argument conforms, whether it is an atom or `emptyRow`. -/
theorem everywhere_of_isArgument {f : Formula} (h : IsArgument atom f) :
    (layOut config f).Everywhere (Conforms config) := by
  rcases h with h | rfl
  · exact hatom f h
  · exact everywhere_emptyRow

/-- An item conforms.  `Scripts.attach` makes a node only where there is a script, and the place of
the scripts is chosen by the base. -/
theorem everywhere_of_isItem {f : Formula} (h : IsItem atom f) :
    (layOut config f).Everywhere (Conforms config) := by
  cases h with
  | base h => exact everywhere_of_isArgument hatom h
  | @scripted base sub sup hbase hsub hsup hsome =>
    refine everywhere_of_parts ⟨?_, ?_⟩ fun part hpart =>
      everywhere_of_isArgument hatom (isArgument_of_mem_parts hbase hsub hsup hpart)
    · rw [Node.relabelOption_eq_map, Node.relabelOption_eq_map, Option.isSome_map,
        Option.isSome_map]
      exact hsome
    · -- the base is large before laying out exactly if it is afterwards
      rw [scriptPlacement_eq_underOver_iff]
      exact and_congr_left' layOut_eq_operator_iff.symm
  | column => exact everywhere_of_parts ⟨rfl, by simp⟩ fun _ hpart => absurd hpart List.not_mem_nil
  | lineBreak => exact everywhere_of_parts trivial fun _ hpart => absurd hpart List.not_mem_nil

/-- An expression conforms.  `Node.ofItems` makes a row only of several items, or of none, since a
single one stands for itself. -/
theorem everywhere_of_isExpression {f : Formula} (h : IsExpression atom f) :
    (layOut config f).Everywhere (Conforms config) := by
  obtain ⟨items, hitems, rfl⟩ := h
  have hall : ∀ item ∈ items, (layOut config item).Everywhere (Conforms config) :=
    fun item hitem => everywhere_of_isItem hatom (hitems item hitem)
  match items with
  | [item] => exact hall item List.mem_cons_self
  | [] => exact everywhere_emptyRow
  | _ :: _ :: _ => exact everywhere_of_parts (Nat.succ_succ_ne_one _) hall

/-- **An atom conforms if the atoms in it do.** Its parts are expressions by `IsBody.parts`, so only
the node itself is left, with one case for each kind of atom. -/
theorem everywhere_of_isBody {f : Formula} (h : IsBody atom f) :
    (layOut config f).Everywhere (Conforms config) := by
  have hexpr : ∀ {f : Formula}, IsExpression atom f →
      (layOut config f).Everywhere (Conforms config) :=
    everywhere_of_isExpression hatom
  rcases h.parts with hf | hparts
  · exact hexpr hf
  refine everywhere_of_parts ?_ fun part hpart => hexpr (hparts part hpart)
  -- the node itself, one case for each kind of atom
  cases h with
  | expression h => exact (hexpr h).at_root
  | nothing => exact everywhere_emptyRow.at_root
  | number h => exact h
  | identifier hne hupright => exact ⟨hne, hupright⟩
  | operator hone hlarge => exact ⟨hone, hlarge⟩
  | fenced hopening hclosing _ => exact ⟨hopening, hclosing⟩
  | @matrix rows hrows _ environment =>
    refine ⟨fun row hrow => ?_, environment, rfl, rfl⟩
    rw [Node.relabelRows_eq_map] at hrow
    obtain ⟨cells, hcells, rfl⟩ := List.mem_map.mp hrow
    exact fun hnil => hrows cells hcells (List.map_eq_nil_iff.mp hnil)
  | space name => exact width_mem config name
  | text _ _ | fraction _ _ _ | radical _ _ | accent _ _ _ | styled _ _ | phantom _ => trivial

end Grammar

/-- Every atom conforms, however many levels it has.  Induction on the levels, with `IsBody.parts`
for what stands in the atom. -/
theorem everywhere_of_isAtom {levels : Nat} {f : Formula} (h : IsAtom levels f) :
    (layOut config f).Everywhere (Conforms config) := by
  induction levels generalizing f with
  | zero =>
    obtain ⟨text, rfl⟩ := h
    exact everywhere_of_parts trivial fun _ hpart => absurd hpart List.not_mem_nil
  | succ levels ih => exact everywhere_of_isBody (fun f hf => ih hf) h

/-- **Every node of the tree of a source conforms to the data model**, whatever the source is.  What
`read` gives is an expression of atoms (`isExpression_read`), and these conform at every level. -/
theorem everywhere_parse (config : Config) (source : List Char) :
    (parse config source).value.Everywhere (Conforms config) :=
  everywhere_of_isExpression (fun _ hf => everywhere_of_isAtom hf) (isExpression_read source)

end FormulaMarkup.Formula
