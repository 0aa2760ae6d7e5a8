import FormulaMarkup.Convert
import FormulaMarkup.Proofs.Node

/-!
# FormulaMarkup — what the output depends on

Each stage of conversion looks at a few parameters only.  Two configurations that agree on these
have the same result at that stage, whatever else they say.

The keys of a stage are given as a list, so that agreement on a longer list, or on all keys but one,
is agreement on this one by a computation.

* **`Config.AgreeOn`** — two configurations have the same values for the keys of a list.
* **`layOut_eq_of_agreeOn`**, **`presentation_eq_of_agreeOn`**, **`document_eq_of_agreeOn`** — the
  stages and their keys.
-/

namespace FormulaMarkup

/-- Two configurations have the same values for the keys of a list. -/
def Config.AgreeOn (keys : List Key) (c c' : Config) : Prop :=
  ∀ k ∈ keys, c.get k = c'.get k

/-- Setting one key leaves all others alone, so that the configuration agrees with what it was
before on any list of keys without that one. -/
theorem Config.agreeOn_overlay_set (c : Config) {keys : List Key} {k : Key} (hk : k ∉ keys)
    (value : k.Value) : c.AgreeOn keys (c.overlay (Overrides.empty.set k value)) := by
  intro other hother
  have hne : k ≠ other := by
    rintro rfl
    exact hk hother
  show c.get other = ((Overrides.empty.set k value).get other).getD (c.get other)
  rw [Overrides.get_set_of_ne _ hne]
  rfl

namespace Formula

/-- The keys that the widths of spaces look at. -/
def spaceKeys : List Key := [.thinSpace, .mediumSpace, .thickSpace, .quad, .qquad]

/-- `SpaceName.width` depends on the `spaceKeys` only. -/
theorem width_eq_of_agreeOn {c c' : Config} (h : c.AgreeOn spaceKeys c') :
    SpaceName.width c = SpaceName.width c' := by
  have hthin : c.thinSpace = c'.thinSpace := h .thinSpace (by decide)
  funext name
  cases name with
  | thin => exact hthin
  | medium => exact h .mediumSpace (by decide)
  | thick => exact h .thickSpace (by decide)
  | negativeThin => simp only [SpaceName.width, hthin]
  | quad => exact h .quad (by decide)
  | qquad => exact h .qquad (by decide)

/-- The keys that `layOut` looks at. -/
def layOutKeys : List Key :=
  [.thinSpace, .mediumSpace, .thickSpace, .quad, .qquad, .useMunderover]

/-- Laying out a formula depends on the widths of spaces and the place of limits only
(`layOutKeys`). -/
theorem layOut_eq_of_agreeOn {c c' : Config} (h : c.AgreeOn layOutKeys c') (formula : Formula) :
    layOut c formula = layOut c' formula := by
  have hwidth := width_eq_of_agreeOn fun k hk => h k (List.subset_append_left spaceKeys [_] hk)
  have hplace : scriptPlacement c = scriptPlacement c' := by
    have hunder : c.useMunderover = c'.useMunderover := h .useMunderover (by decide)
    funext large
    simp only [scriptPlacement, hunder]
  simp only [layOut, hwidth, hplace]

end Formula

namespace Markup

/-- The keys that `presentation` looks at. -/
def presentationKeys : List Key :=
  [.fracLineThickness, .fracNumAlign, .fracDenomAlign, .matrixRowGap, .matrixColGap,
   .fencePadding, .operatorSpacing, .useOperatorSpacing]

section Presentation

variable {c c' : Config} (h : c.AgreeOn presentationKeys c')
include h

/-- An operator depends on the spacing of operators. -/
theorem operatorElement_eq_of_agreeOn (text : String) (large : Bool) :
    operatorElement c text large = operatorElement c' text large := by
  have hspacing : c.operatorSpacing = c'.operatorSpacing := h .operatorSpacing (by decide)
  have huse : c.useOperatorSpacing = c'.useOperatorSpacing := h .useOperatorSpacing (by decide)
  simp only [operatorElement, spacingAttributes, hspacing, huse]

/-- A fraction depends on the thickness of its line and on its alignments. -/
theorem fractionElement_eq_of_agreeOn (numerator denominator : Element) (style : FractionStyle) :
    fractionElement c numerator denominator style
      = fractionElement c' numerator denominator style := by
  have hline : c.fracLineThickness = c'.fracLineThickness := h .fracLineThickness (by decide)
  have hnum : c.fracNumAlign = c'.fracNumAlign := h .fracNumAlign (by decide)
  have hdenom : c.fracDenomAlign = c'.fracDenomAlign := h .fracDenomAlign (by decide)
  simp only [fractionElement, hline, hnum, hdenom]

/-- What stands between fences depends on their padding. -/
theorem fencedElement_eq_of_agreeOn (opening closing : String) (body : Element) :
    fencedElement c opening closing body = fencedElement c' opening closing body := by
  have hpadding : c.fencePadding = c'.fencePadding := h .fencePadding (by decide)
  have hhas : c.hasFencePadding = c'.hasFencePadding := by
    simp only [Config.hasFencePadding, hpadding]
  simp only [fencedElement, fencePadding, hhas, hpadding]

/-- A table depends on its gaps, and on the padding of its fences. -/
theorem matrixElement_eq_of_agreeOn (rows : List Element) (opening closing : String) :
    matrixElement c rows opening closing = matrixElement c' rows opening closing := by
  have hrow : c.matrixRowGap = c'.matrixRowGap := h .matrixRowGap (by decide)
  have hcol : c.matrixColGap = c'.matrixColGap := h .matrixColGap (by decide)
  simp only [matrixElement, hrow, hcol, fencedElement_eq_of_agreeOn h]

end Presentation

mutual

/-- The element of a node depends on the `presentationKeys` only.  The recursion is that of
`presentation`; operators, fractions, fences and tables are the nodes that look at the configuration
themselves. -/
theorem presentation_eq_of_agreeOn {c c' : Config} (h : c.AgreeOn presentationKeys c') :
    ∀ node : Layout, presentation c node = presentation c' node
  | .row children => by
    rw [presentation, presentation, presentationAll_eq_of_agreeOn h children]
  | .identifier _ _ | .number _ | .text _ _ | .space _ | .lineBreak => rfl
  | .operator t large => operatorElement_eq_of_agreeOn h t large
  -- the parts first, and then the element that is made of them
  | .fraction numerator denominator style => by
    rw [presentation, presentation, presentation_eq_of_agreeOn h numerator,
      presentation_eq_of_agreeOn h denominator, fractionElement_eq_of_agreeOn h]
  | .radical body none => by
    rw [presentation, presentation, presentation_eq_of_agreeOn h body]
  | .radical body (some index) => by
    rw [presentation, presentation, presentation_eq_of_agreeOn h body,
      presentation_eq_of_agreeOn h index]
  | .scripted base sub sup placement => by
    rw [presentation, presentation, presentation_eq_of_agreeOn h base,
      presentationOption_eq_of_agreeOn h sub, presentationOption_eq_of_agreeOn h sup]
  | .accent body glyph position => by
    rw [presentation, presentation, presentation_eq_of_agreeOn h body]
  | .fenced opening closing body => by
    rw [presentation, presentation, presentation_eq_of_agreeOn h body,
      fencedElement_eq_of_agreeOn h]
  | .matrix rows opening closing => by
    rw [presentation, presentation, presentationRows_eq_of_agreeOn h rows,
      matrixElement_eq_of_agreeOn h]
  | .styled variant body => by
    rw [presentation, presentation, presentation_eq_of_agreeOn h body]
  | .phantom body => by
    rw [presentation, presentation, presentation_eq_of_agreeOn h body]

/-- The elements of nodes in a row depend on the `presentationKeys` only. -/
theorem presentationAll_eq_of_agreeOn {c c' : Config} (h : c.AgreeOn presentationKeys c') :
    ∀ nodes : List Layout, presentationAll c nodes = presentationAll c' nodes
  | [] => rfl
  | node :: nodes => by
    rw [presentationAll, presentationAll, presentation_eq_of_agreeOn h node,
      presentationAll_eq_of_agreeOn h nodes]

/-- The cells of a row depend on the `presentationKeys` only. -/
theorem presentationCells_eq_of_agreeOn {c c' : Config} (h : c.AgreeOn presentationKeys c') :
    ∀ cells : List Layout, presentationCells c cells = presentationCells c' cells
  | [] => rfl
  | cell :: cells => by
    rw [presentationCells, presentationCells, presentation_eq_of_agreeOn h cell,
      presentationCells_eq_of_agreeOn h cells]

/-- The rows of a table depend on the `presentationKeys` only. -/
theorem presentationRows_eq_of_agreeOn {c c' : Config} (h : c.AgreeOn presentationKeys c') :
    ∀ rows : List (List Layout), presentationRows c rows = presentationRows c' rows
  | [] => rfl
  | cells :: rows => by
    rw [presentationRows, presentationRows, presentationCells_eq_of_agreeOn h cells,
      presentationRows_eq_of_agreeOn h rows]

theorem presentationOption_eq_of_agreeOn {c c' : Config} (h : c.AgreeOn presentationKeys c') :
    ∀ node : Option Layout, presentationOption c node = presentationOption c' node
  | none => rfl
  | some node => by
    rw [presentationOption, presentationOption, presentation_eq_of_agreeOn h node]

end

/-- The keys that the attributes of the root look at. -/
def rootKeys : List Key := [.scriptScale, .scriptMinSize, .displayMode]

/-- The attributes of the root depend on the `rootKeys` only. -/
theorem rootAttributes_eq_of_agreeOn {c c' : Config} (h : c.AgreeOn rootKeys c') :
    rootAttributes c = rootAttributes c' := by
  have hscale : c.scriptScale = c'.scriptScale := h .scriptScale (by decide)
  have hsize : c.scriptMinSize = c'.scriptMinSize := h .scriptMinSize (by decide)
  have hmode : c.displayMode = c'.displayMode := h .displayMode (by decide)
  rw [rootAttributes, rootAttributes, hscale, hsize, hmode]

/-- A `document` depends on the keys of the root and of the elements in it.  Whether its source goes
with the formula has been decided before. -/
theorem document_eq_of_agreeOn {c c' : Config} (hroot : c.AgreeOn rootKeys c')
    (hnode : c.AgreeOn presentationKeys c') (node : Layout) (source : Option (List Char)) :
    document c node source = document c' node source := by
  simp only [document, rootAttributes_eq_of_agreeOn hroot, presentation_eq_of_agreeOn hnode node]

/-- `Config.isPretty` depends on two keys, because indentation may be left to the display mode. -/
theorem isPretty_eq_of_agreeOn {c c' : Config} (h : c.AgreeOn [.prettyPrint, .displayMode] c') :
    c.isPretty = c'.isPretty := by
  have hprint : c.prettyPrint = c'.prettyPrint := h .prettyPrint (by decide)
  have hmode : c.displayMode = c'.displayMode := h .displayMode (by decide)
  rw [Config.isPretty, Config.isPretty, hprint, hmode]

end Markup

end FormulaMarkup
