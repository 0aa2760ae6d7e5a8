import FormulaMarkup.Proofs.Markup.WellFormed

/-!
# FormulaMarkup — the texts of a formula in its output

The texts of a formula are all that a reader of the output sees of it.  This module shows that they
arrive one by one, in order and unchanged, whatever characters they contain.

Which elements a reader finds is known from `Contributes`.  So nothing is said here about characters
and tags any more: the texts of a node are compared with those of its element, part by part.

* **`Node.texts`** — the texts of a node in document order.
* **`tokenTexts`** — the contents of the token elements that a reader finds, in document order.
* **`tokenTexts_nodeTree`** — the element of a node shows the texts of the node.
* **`tokenTexts_elements`** — the main statement: the one is the other.
-/

namespace FormulaMarkup.Node

variable {W P : Type}

/-- The glyph of a fence or a table as a text, if there is one. -/
def glyphTexts (glyph : String) : List String :=
  if glyph.isEmpty then [] else [glyph]

mutual

/-- The texts of a node in document order: a numerator before its denominator, the body of a radical
before its index, a base before its subscript and that before its superscript, a body before its
accent, and a table row by row between its glyphs. -/
def texts : Node W P → List String
  | .row children => textsAll children
  | .identifier t _ | .number t | .operator t _ | .text t _ => [t]
  | .fraction numerator denominator _ => texts numerator ++ texts denominator
  | .radical body index => texts body ++ textsOption index
  | .scripted base sub sup _ => texts base ++ textsOption sub ++ textsOption sup
  | .accent body glyph _ => texts body ++ [glyph]
  | .fenced opening closing body => glyphTexts opening ++ texts body ++ glyphTexts closing
  | .matrix rows opening closing => glyphTexts opening ++ textsRows rows ++ glyphTexts closing
  | .styled _ body => texts body
  | .phantom body => texts body
  | .space _ | .lineBreak => []

/-- The texts of nodes in a row. -/
def textsAll : List (Node W P) → List String
  | [] => []
  | node :: nodes => texts node ++ textsAll nodes

/-- The texts of a table, row by row. -/
def textsRows : List (List (Node W P)) → List String
  | [] => []
  | cells :: rows => textsAll cells ++ textsRows rows

/-- The texts of a script, if there is one. -/
def textsOption : Option (Node W P) → List String
  | none => []
  | some node => texts node

end

/-- The texts of nodes in a row are those of each, one after the other. -/
theorem textsAll_eq (nodes : List (Node W P)) : textsAll nodes = nodes.flatMap texts := by
  induction nodes with
  | nil => rfl
  | cons node nodes ih => simp [textsAll, ih]

/-- The texts of a table are those of its cells, row by row. -/
theorem textsRows_eq (rows : List (List (Node W P))) :
    textsRows rows = rows.flatMap fun cells => cells.flatMap texts := by
  induction rows with
  | nil => rfl
  | cons cells rows ih => simp [textsRows, textsAll_eq, ih]

theorem textsOption_eq (node : Option (Node W P)) :
    textsOption node = node.toList.flatMap texts := by
  cases node <;> simp [textsOption]

/-- The texts of a node that do not stand in its parts: those before its parts and those after. -/
def ownTexts : Node W P → List String × List String
  | .identifier t _ | .number t | .operator t _ | .text t _ => ([t], [])
  | .accent _ glyph _ => ([], [glyph])
  | .fenced opening closing _ | .matrix _ opening closing =>
    (glyphTexts opening, glyphTexts closing)
  | .row _ | .fraction _ _ _ | .radical _ _ | .scripted _ _ _ _ | .styled _ _ | .phantom _
  | .space _ | .lineBreak => ([], [])

/-- The texts of a node are its own and those of its parts, in document order.  The own ones stand
before the parts, behind them, or on both sides (`ownTexts`). -/
theorem texts_eq (node : Node W P) :
    node.texts = node.ownTexts.1 ++ node.parts.flatMap texts ++ node.ownTexts.2 := by
  cases node with
  | row children => simp [texts, ownTexts, parts, textsAll_eq]
  | radical body index => simp [texts, ownTexts, parts, textsOption_eq]
  | scripted base sub sup place => simp [texts, ownTexts, parts, textsOption_eq]
  | matrix rows opening closing =>
    have hrows : rows.flatMap (fun cells => cells.flatMap texts) = rows.flatten.flatMap texts := by
      induction rows with
      | nil => rfl
      | cons cells rows ih => simp [ih]
    simp [texts, ownTexts, parts, textsRows_eq, hrows]
  | _ => simp [texts, ownTexts, parts]

/-- Labels are no texts: `relabel` can exchange widths of spaces and places of scripts. -/
theorem texts_relabel {W' P' : Type} (width : W → W') (placement : Bool → P → P')
    (node : Node W P) : (node.relabel width placement).texts = node.texts := by
  have hown (node : Node W P) : (node.relabel width placement).ownTexts = node.ownTexts := by
    cases node <;> rfl
  induction node using parts_induction with
  | step node ih =>
    have hparts := List.map_congr_left ih
    rw [texts_eq, texts_eq node, hown, parts_relabel, List.flatMap_map, List.flatMap_def,
      List.flatMap_def, hparts]

end FormulaMarkup.Node

namespace FormulaMarkup.Markup

/-- Whether an element is a token of presentation markup. -/
def Tag.isToken : Tag → Bool
  | .mi | .mn | .mo | .mtext => true
  | _ => false

mutual

/-- The contents of the token elements in an element, in document order.  The element of the source
is no token. -/
def Tree.tokenTexts : Tree → List (List Char)
  | .element tag text children =>
    if tag.isToken then text :: tokenTexts children else tokenTexts children

/-- The contents of the token elements of elements in a row. -/
def tokenTexts : List Tree → List (List Char)
  | [] => []
  | tree :: trees => tree.tokenTexts ++ tokenTexts trees

end

/-- Elements in a row show what each of them shows (`Tree.tokenTexts`). -/
theorem tokenTexts_eq (trees : List Tree) : tokenTexts trees = trees.flatMap Tree.tokenTexts := by
  induction trees with
  | nil => rfl
  | cons tree trees ih => simp [tokenTexts, ih]

/-- An element that is no token (`Tag.isToken`) shows what its children show. -/
theorem tokenTexts_element {tag : Tag} (htag : tag.isToken = false) (text : List Char)
    (children : List Tree) :
    (Tree.element tag text children).tokenTexts = children.flatMap Tree.tokenTexts := by
  simp [Tree.tokenTexts, htag, tokenTexts_eq]

/-! ## The element of a node shows the texts of the node

The induction is on the node.  What is left in each case are the texts that a node has besides those
of its parts, which are the glyph of an accent and the glyphs of fences. -/

/-- The texts of a node as its element shows them, which is the statement about one node. -/
def Shown (config : Config) (node : Layout) : Prop :=
  (nodeTree config node).tokenTexts = node.texts.map String.toList

/-- Nodes in a row show their texts one after the other. -/
theorem flatMap_shown {config : Config} (nodes : List Layout)
    (h : ∀ node ∈ nodes, Shown config node) :
    (nodes.map (nodeTree config)).flatMap Tree.tokenTexts
      = (nodes.flatMap Node.texts).map String.toList := by
  induction nodes with
  | nil => rfl
  | cons node nodes ih =>
    have hnode : (nodeTree config node).tokenTexts = node.texts.map String.toList :=
      h node (by simp)
    simp [hnode, ih fun n hn => h n (by simp [hn])]

theorem tokenTexts_glyphTrees (glyph : String) :
    (glyphTrees glyph).flatMap Tree.tokenTexts = (Node.glyphTexts glyph).map String.toList := by
  unfold glyphTrees Node.glyphTexts
  split <;> rfl

theorem tokenTexts_paddingTrees (config : Config) :
    (paddingTrees config).flatMap Tree.tokenTexts = [] := by
  unfold paddingTrees
  split <;> rfl

/-- Between fences stand the glyphs and the body; padding shows nothing. -/
theorem tokenTexts_fencedTree (config : Config) (opening closing : String) (body : Tree) :
    (fencedTree config opening closing body).tokenTexts
      = (Node.glyphTexts opening).map String.toList ++ body.tokenTexts
        ++ (Node.glyphTexts closing).map String.toList := by
  rw [fencedTree, tokenTexts_element rfl]
  simp [tokenTexts_glyphTrees, tokenTexts_paddingTrees]

/-- A table shows its cells row by row. -/
theorem tokenTexts_tableTree (config : Config) (rows : List (List Layout))
    (h : ∀ cells ∈ rows, ∀ cell ∈ cells, Shown config cell) :
    (tableTree (rows.map (·.map (nodeTree config)))).tokenTexts
      = (Node.textsRows rows).map String.toList := by
  have hrow : ∀ cells ∈ rows, (Tree.element .mtr [] ((cells.map (nodeTree config)).map fun cell =>
      .element .mtd [] [cell])).tokenTexts = (cells.flatMap Node.texts).map String.toList := by
    intro cells hcells
    rw [tokenTexts_element rfl, ← flatMap_shown cells (h cells hcells), List.flatMap_map]
    simp [tokenTexts_element (show Tag.isToken .mtd = false from rfl)]
  -- row by row, by induction on the rows
  rw [tableTree, tokenTexts_element rfl, Node.textsRows_eq]
  induction rows with
  | nil => rfl
  | cons cells rows ih =>
    have hcells := hrow cells (by simp)
    have hrows := ih (fun c hc => h c (by simp [hc])) fun c hc => hrow c (by simp [hc])
    simp only [List.map_cons, List.flatMap_cons, List.map_append, hcells, hrows]

/-- **The element of a node shows the texts of the node**, in document order.  Induction over the
parts: they show their texts, and `Contributes` says in which order they stand in the element of the
node. -/
theorem tokenTexts_nodeTree (config : Config) (node : Layout) : Shown config node := by
  have hparts := contributes_nodeTree config
  -- induction on the node: its parts show their texts, and the element adds the node's own
  induction node using Node.parts_induction with
  | step node ih =>
    have hpart : ∀ part ∈ node.parts,
        (nodeTree config part).tokenTexts = part.texts.map String.toList := ih
    unfold Shown
    cases node with
    | row children =>
      have hall := flatMap_shown children ih
      rw [hparts.row, tokenTexts_element rfl, hall, Node.texts, Node.textsAll_eq]
    | fraction numerator denominator style =>
      have hn := hpart numerator (by simp [Node.parts])
      have hd := hpart denominator (by simp [Node.parts])
      have hfraction : (Tree.element .mfrac [] [nodeTree config numerator,
          nodeTree config denominator]).tokenTexts
          = (numerator.texts ++ denominator.texts).map String.toList := by
        rw [tokenTexts_element rfl]
        simp [hn, hd]
      -- a style of its own is one element more around the fraction
      rw [hparts.fraction, Node.texts, ← hfraction]
      dsimp only
      split
      · rfl
      · rw [tokenTexts_element rfl]
        simp
    | radical body index =>
      have hb := hpart body (by simp [Node.parts])
      cases index with
      | none =>
        rw [hparts.squareRoot, tokenTexts_element rfl]
        simp [hb, Node.texts, Node.textsOption]
      | some index =>
        have hi := hpart index (by simp [Node.parts])
        rw [hparts.root, tokenTexts_element rfl]
        simp [hb, hi, Node.texts, Node.textsOption]
    | scripted base sub sup placement =>
      have htag : (scriptTag placement sub.isSome sup.isSome).isToken = false := by
        cases placement <;> cases sub <;> cases sup <;> rfl
      have hall := flatMap_shown (base :: sub.toList ++ sup.toList) ih
      rw [hparts.scripted, tokenTexts_element htag, hall]
      simp [Node.texts, Node.textsOption_eq]
    | accent body glyph position =>
      have hb := hpart body (by simp [Node.parts])
      rw [hparts.accent, tokenTexts_element (by cases position <;> rfl)]
      simp [hb, Node.texts, Tree.tokenTexts, Tag.isToken, tokenTexts]
    | fenced opening closing body =>
      have hb := hpart body (by simp [Node.parts])
      rw [hparts.fenced, tokenTexts_fencedTree, hb]
      simp [Node.texts]
    | matrix rows opening closing =>
      have htable := tokenTexts_tableTree config rows
        fun cells hcells cell hcell => ih cell (List.mem_flatten.mpr ⟨cells, hcells, hcell⟩)
      rw [hparts.matrix]
      dsimp only
      split
      · next hglyphs =>
        -- neither glyph is there, so the table stands alone
        have hempty := Bool.and_eq_true_iff.mp hglyphs
        rw [htable]
        simp [Node.texts, Node.glyphTexts, hempty]
      · rw [tokenTexts_fencedTree, htable]
        simp [Node.texts]
    | styled variant body =>
      rw [hparts.styled, tokenTexts_element rfl]
      simp [hpart body (by simp [Node.parts]), Node.texts]
    | phantom body =>
      rw [hparts.phantom, tokenTexts_element rfl]
      simp [hpart body (by simp [Node.parts]), Node.texts]
    | text t kind => cases kind <;> rfl
    | _ => rfl

/-- The source beside a formula is no token. -/
theorem tokenTexts_rootTree (formula : Tree) (source : Option (List Char)) :
    (rootTree formula source).tokenTexts = formula.tokenTexts := by
  unfold rootTree
  rw [tokenTexts_element rfl]
  cases source with
  | none => simp
  | some source =>
    have hsource : (Tree.element .sourceText source []).tokenTexts = [] := rfl
    simp [tokenTexts_element (show Tag.isToken .semantics = false from rfl), hsource]

/-- **No text is lost, altered or able to pass for markup.** The contents of the token elements of
the output, with the entities read back, are the `texts` of the formula in document order: for a
node at every level of indentation, for a document, and for the document of a source. -/
theorem tokenTexts_elements (config : Config) :
    (∀ level node, (elements (nodeText config level node)).map tokenTexts
      = some (node.texts.map String.toList)) ∧
    (∀ node, (elements (render config node)).map tokenTexts
      = some (node.texts.map String.toList)) ∧
    ∀ source, (elements (convert config source)).map tokenTexts
      = some ((parse config source).value.texts.map String.toList) := by
  have hshown : ∀ node, tokenTexts [nodeTree config node] = node.texts.map String.toList := by
    intro node
    rw [← tokenTexts_nodeTree config node, tokenTexts_eq]
    simp
  -- the root and the wrapper show what stands in them
  have hdocument : ∀ node source pretty,
      (elements ((document config node source).print pretty)).map tokenTexts
        = some (node.texts.map String.toList) := by
    intro node source pretty
    rw [elements_document, Option.map_some, ← hshown node, tokenTexts_eq, tokenTexts_eq]
    simp [tokenTexts_rootTree]
  refine ⟨fun level node => ?_, fun node => hdocument node none _,
    fun source => hdocument (parse config source).value _ _⟩
  have hnode := elements_textAt (presentation_proper config node) level
  rw [nodeText, hnode, Option.map_some]
  exact congrArg some (hshown node)

end FormulaMarkup.Markup
