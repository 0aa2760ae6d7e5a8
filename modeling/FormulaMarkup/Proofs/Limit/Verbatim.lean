import FormulaMarkup.Proofs.Node

/-!
# FormulaMarkup — the texts that a tree takes over as they are

Past the limit on nesting the rest of the input becomes one text of the tree.  To say that it
becomes nothing else as well, this module has two views of a tree.

* **`Node.verbatims`** — the verbatim texts of a node in document order.
* **`Node.Frame`** — a tree in which one node is missing; **`Node.Frame.fill`** puts it in.
-/

namespace FormulaMarkup.Node

variable {W P : Type}

/-! ## Verbatim texts

The texts of words and of verbatim groups are in a tree as they are in the source, and so is what
the fallback takes.  They are collected in document order, so that "no other verbatim text" is an
equation between lists. -/

mutual

/-- The verbatim texts of a node in document order. -/
def verbatims : Node W P → List String
  | .row children => verbatimsAll children
  | .text t _ => [t]
  | .fraction numerator denominator _ => verbatims numerator ++ verbatims denominator
  | .radical body index => verbatims body ++ verbatimsOption index
  | .scripted base sub sup _ => verbatims base ++ (verbatimsOption sub ++ verbatimsOption sup)
  | .accent body _ _ | .fenced _ _ body | .styled _ body | .phantom body => verbatims body
  | .matrix rows _ _ => verbatimsRows rows
  | .identifier _ _ | .number _ | .operator _ _ | .space _ | .lineBreak => []

/-- Those of several nodes. -/
def verbatimsAll : List (Node W P) → List String
  | [] => []
  | node :: nodes => verbatims node ++ verbatimsAll nodes

/-- Those of the cells of a table, row by row. -/
def verbatimsRows : List (List (Node W P)) → List String
  | [] => []
  | cells :: rows => verbatimsAll cells ++ verbatimsRows rows

/-- Those of a node that may be missing. -/
def verbatimsOption : Option (Node W P) → List String
  | none => []
  | some node => verbatims node

end

/-- The verbatim texts of several nodes are those of each, one behind the other. -/
theorem verbatimsAll_eq (nodes : List (Node W P)) :
    verbatimsAll nodes = nodes.flatMap verbatims := by
  induction nodes with
  | nil => rfl
  | cons node nodes ih => rw [verbatimsAll, ih, List.flatMap_cons]

/-- The verbatim texts of rows are those of all their cells. -/
theorem verbatimsRows_eq (rows : List (List (Node W P))) :
    verbatimsRows rows = rows.flatten.flatMap verbatims := by
  induction rows with
  | nil => rfl
  | cons cells rows ih =>
    rw [verbatimsRows, ih, verbatimsAll_eq, List.flatten_cons, List.flatMap_append]

theorem verbatimsOption_eq (node? : Option (Node W P)) :
    verbatimsOption node? = node?.toList.flatMap verbatims := by
  cases node? <;> simp [verbatimsOption]

/-- The node itself, if it is verbatim. -/
def ownVerbatim : Node W P → List String
  | .text t _ => [t]
  | _ => []

/-- The `verbatims` of a node are those of its parts, or the node itself. -/
theorem verbatims_eq (node : Node W P) :
    node.verbatims = node.ownVerbatim ++ node.parts.flatMap verbatims := by
  cases node with
  | row children => exact verbatimsAll_eq children
  | matrix rows opening closing => exact verbatimsRows_eq rows
  | radical body index => simp [verbatims, verbatimsOption_eq, ownVerbatim, parts]
  | scripted base sub sup place => simp [verbatims, verbatimsOption_eq, ownVerbatim, parts]
  | _ => simp [verbatims, ownVerbatim, parts]

/-- Labels have no part in the verbatim texts, so laying a tree out does not change them.  Induction
on the parts of a node, with `verbatims_eq`. -/
theorem verbatims_relabel {W' P' : Type} (width : W → W') (placement : Bool → P → P')
    (node : Node W P) : (node.relabel width placement).verbatims = node.verbatims := by
  have hown (node : Node W P) : (node.relabel width placement).ownVerbatim = node.ownVerbatim := by
    cases node <;> rfl
  induction node using parts_induction with
  | step node ih =>
    have hparts := List.map_congr_left ih
    rw [verbatims_eq, verbatims_eq node, hown, parts_relabel, List.flatMap_map, List.flatMap_def,
      List.flatMap_def, hparts]

/-- The `verbatims` of an expression are those of its items, whether `ofItems` makes a row of them
or not. -/
theorem verbatims_ofItems (items : List (Node W P)) :
    (ofItems items).verbatims = items.flatMap verbatims := by
  match items with
  | [item] => simp [ofItems]
  | [] => rfl
  | item :: other :: others => exact verbatimsAll_eq (item :: other :: others)

/-! ## Trees with a hole

A frame says where in a tree the verbatim text stands, whatever this text is.  A constructor with
one part missing for each part of a node that can take the rest of the input. -/

/-- A tree in which one node is missing.  The base of scripts is never what is missing: it is read
before them. -/
inductive Frame (W P : Type) where
  | hole
  | row (before : List (Node W P)) (inner : Frame W P) (after : List (Node W P))
  | numerator (inner : Frame W P) (denominator : Node W P) (style : FractionStyle)
  | denominator (numerator : Node W P) (inner : Frame W P) (style : FractionStyle)
  | radicand (inner : Frame W P) (index : Option (Node W P))
  | index (body : Node W P) (inner : Frame W P)
  | subscript (base : Node W P) (inner : Frame W P) (sup : Option (Node W P)) (placement : P)
  | superscript (base : Node W P) (sub : Option (Node W P)) (inner : Frame W P) (placement : P)
  | accented (inner : Frame W P) (glyph : String) (position : AccentPosition)
  | fenced (opening closing : String) (inner : Frame W P)
  | cell (above : List (List (Node W P))) (before : List (Node W P)) (inner : Frame W P)
      (after : List (Node W P)) (below : List (List (Node W P))) (opening closing : String)
  | styled (variant : MathVariant) (inner : Frame W P)
  | phantom (inner : Frame W P)

namespace Frame

/-- The tree with the missing node put in. -/
def fill (node : Node W P) : Frame W P → Node W P
  | .hole => node
  | .row before inner after => .row (before ++ inner.fill node :: after)
  | .numerator inner below style => .fraction (inner.fill node) below style
  | .denominator above inner style => .fraction above (inner.fill node) style
  | .radicand inner degree => .radical (inner.fill node) degree
  | .index body inner => .radical body (some (inner.fill node))
  | .subscript base inner sup place => .scripted base (some (inner.fill node)) sup place
  | .superscript base sub inner place => .scripted base sub (some (inner.fill node)) place
  | .accented inner glyph position => .accent (inner.fill node) glyph position
  | .fenced opening closing inner => .fenced opening closing (inner.fill node)
  | .cell above before inner after below opening closing =>
    .matrix (above ++ (before ++ inner.fill node :: after) :: below) opening closing
  | .styled variant inner => .styled variant (inner.fill node)
  | .phantom inner => .phantom (inner.fill node)

variable {W' P' : Type}

/-- The same frame with other labels. -/
def relabel (width : W → W') (placement : Bool → P → P') : Frame W P → Frame W' P'
  | .hole => .hole
  | .row before inner after =>
    .row (before.map (Node.relabel width placement)) (inner.relabel width placement)
      (after.map (Node.relabel width placement))
  | .numerator inner below style =>
    .numerator (inner.relabel width placement) (below.relabel width placement) style
  | .denominator above inner style =>
    .denominator (above.relabel width placement) (inner.relabel width placement) style
  | .radicand inner degree =>
    .radicand (inner.relabel width placement) (degree.map (Node.relabel width placement))
  | .index body inner => .index (body.relabel width placement) (inner.relabel width placement)
  | .subscript base inner sup place =>
    .subscript (base.relabel width placement) (inner.relabel width placement)
      (sup.map (Node.relabel width placement)) (placement base.isLargeOperator place)
  | .superscript base sub inner place =>
    .superscript (base.relabel width placement) (sub.map (Node.relabel width placement))
      (inner.relabel width placement) (placement base.isLargeOperator place)
  | .accented inner glyph position => .accented (inner.relabel width placement) glyph position
  | .fenced opening closing inner => .fenced opening closing (inner.relabel width placement)
  | .cell above before inner after below opening closing =>
    .cell (above.map (List.map (Node.relabel width placement)))
      (before.map (Node.relabel width placement)) (inner.relabel width placement)
      (after.map (Node.relabel width placement))
      (below.map (List.map (Node.relabel width placement))) opening closing
  | .styled variant inner => .styled variant (inner.relabel width placement)
  | .phantom inner => .phantom (inner.relabel width placement)

/-- Labels can be exchanged before the missing node is put in or after, by `relabel` on either
side. -/
theorem relabel_fill (width : W → W') (placement : Bool → P → P') (node : Node W P)
    (frame : Frame W P) :
    (frame.fill node).relabel width placement
      = (frame.relabel width placement).fill (node.relabel width placement) := by
  induction frame <;>
    simp only [fill, relabel, Node.relabel, relabelAll_eq_map, relabelRows_eq_map,
      relabelOption_eq_map, List.map_append, List.map_cons, Option.map_some, *]

/-- An expression with a hole in one of its items is a `Frame`: a row around the item, or the item
itself if there is no other. -/
theorem exists_ofItems (before : List (Node W P)) (inner : Frame W P)
    (after : List (Node W P)) :
    ∃ frame : Frame W P,
      ∀ node, frame.fill node = ofItems (before ++ inner.fill node :: after) := by
  by_cases hsingle : before = [] ∧ after = []
  · obtain ⟨rfl, rfl⟩ := hsingle
    exact ⟨inner, fun _ => rfl⟩
  · refine ⟨.row before inner after, fun node => ?_⟩
    -- with more than one item the expression is a row
    match before, after with
    | [], [] => exact absurd ⟨rfl, rfl⟩ hsingle
    | [], _ :: _ => rfl
    | [_], _ => rfl
    | _ :: _ :: _, _ => rfl

end Frame

end FormulaMarkup.Node
