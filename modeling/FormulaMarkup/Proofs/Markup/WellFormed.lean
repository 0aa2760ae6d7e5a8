import FormulaMarkup.Convert
import FormulaMarkup.Proofs.Markup.Attributes
import FormulaMarkup.Proofs.Node

/-!
# FormulaMarkup — the output is well formed

Whatever the layout, the configuration and the way of printing, the output is read as exactly one
`math` element, and every element in it has the child elements that presentation markup requires.

That the output is read at all is a matter of its pieces (`Proofs.Markup.ElementText`) and of the
elements being proper.  What is added here is which elements are found: the element of a node is put
together from those of its parts, and how many there are of them decides its tag.

* **`Tag.admits`** — the child elements that an element may have.
* **`Tree.valid`** — an element in which every element has the children it may have.
* **`Contributes`** — which elements the parts of a node have in the element of the node.
* **`FormulaTree`** — what the elements of nodes are built of.
* **`markup_wellFormed`** — the main statement.
-/

namespace FormulaMarkup.Markup

/-- Whether an element may have child elements with these tags. -/
def Tag.admits : Tag → List Tag → Bool
  | .mi, tags | .mn, tags | .mo, tags | .mtext, tags | .sourceText, tags | .mspace, tags =>
    tags.isEmpty
  | .math, tags | .msqrt, tags | .mstyle, tags | .mphantom, tags | .mtd, tags => tags.length == 1
  | .mfrac, tags | .mroot, tags | .msub, tags | .msup, tags | .munder, tags | .mover, tags
  | .semantics, tags => tags.length == 2
  | .msubsup, tags | .munderover, tags => tags.length == 3
  | .mtable, tags => tags.all (· == .mtr)
  | .mtr, tags => tags.all (· == .mtd)
  | .mrow, _ => true

namespace Tree

mutual

/-- Whether every element has only child elements that it may have (`Tag.admits`). -/
def valid : Tree → Bool
  | element tag _ children => tag.admits (children.map Tree.tag) && validAll children

/-- The same of several elements. -/
def validAll : List Tree → Bool
  | [] => true
  | tree :: trees => valid tree && validAll trees

end

/-- Elements in a row are valid if each of them is. -/
theorem validAll_eq (trees : List Tree) : validAll trees = trees.all valid := by
  induction trees with
  | nil => rfl
  | cons tree trees ih => rw [validAll, ih, List.all_cons]

end Tree

/-! ## Printed elements

A proper element is the one element of its text, at any level of indentation and in either way of
printing. -/

/-- **The text of an element at any level is read back** by `elements`.  Level zero stands for flat
output, in which nothing stands in front of the lines. -/
theorem elements_textAt {e : Element} (he : e.Proper) (level : Nat) :
    elements (e.textAt level) = some [e.tree] := by
  refine elements_eq_of_reads ?_
  -- flat output has nothing in front of its lines, indented output blanks
  unfold Element.textAt
  split
  · rw [flat_eq_writtenWith]
    exact reads_lines blankLead_nil e he 0 .start rfl
  · rw [indented_eq_writtenWith]
    exact reads_lines blankLead_lineBreak e he level .start rfl

/-- **An element printed as a text of its own is read back** by `elements`, flat or indented.
Indented, its first line has no line break in front, but one would not count (`reads_blanks`). -/
theorem elements_print {e : Element} (he : e.Proper) (pretty : Bool) :
    elements (e.print pretty) = some [e.tree] := by
  cases pretty with
  | false => exact elements_textAt he 0
  | true =>
    refine elements_eq_of_reads ?_
    have hall := reads_lines blankLead_lineBreak e he 0 .start rfl
    rw [Element.print, if_pos rfl]
    split
    · next h =>
      rw [h] at hall
      exact hall
    · next first others h =>
      -- the first line starts the text, so the break before it is taken off again
      have hlead : Reads (lineBreak first.depth) .start .start :=
        reads_blanks rfl fun _ => isBlank_of_mem_lineBreak
      rw [h, writtenWith, List.flatMap_cons, List.append_assoc] at hall
      rw [indented_eq_writtenWith]
      exact hlead.of_append hall

/-! ## Children of the elements of nodes

What `Contributes` asks for is found in the element of a node by computing it.  The lemmas before
that say how lists of nodes, scripts, cells and fences become lists of elements. -/

/-- The element of a glyph, or none if the glyph is absent. -/
def glyphTrees (glyph : String) : List Tree :=
  if glyph.isEmpty then [] else [.element .mo glyph.toList []]

/-- The element of the padding of a fence, or none if there is no padding. -/
def paddingTrees (config : Config) : List Tree :=
  if config.hasFencePadding then [.element .mspace [] []] else []

/-- An element between two fences: the glyphs and the padding stand beside the body, in one
`mrow`. -/
def fencedTree (config : Config) (opening closing : String) (body : Tree) : Tree :=
  .element .mrow [] (glyphTrees opening ++ paddingTrees config ++ [body] ++ paddingTrees config
    ++ glyphTrees closing)

/-- The element of a table, given those of its cells: `mtr` around the cells of a row, `mtd` around
each cell. -/
def tableTree (rows : List (List Tree)) : Tree :=
  .element .mtable [] (rows.map fun cells =>
    .element .mtr [] (cells.map fun cell => .element .mtd [] [cell]))

/-- **Every part of a node has one element in the element of the node**, in the place that its role
asks for. -/
structure Contributes (config : Config) (elementOf : Layout → Tree) : Prop where
  row : ∀ children, elementOf (.row children) = .element .mrow [] (children.map elementOf)
  fraction : ∀ numerator denominator style,
    elementOf (.fraction numerator denominator style) =
      let fraction := .element .mfrac [] [elementOf numerator, elementOf denominator]
      if style = .inherit then fraction else .element .mstyle [] [fraction]
  squareRoot : ∀ body, elementOf (.radical body none) = .element .msqrt [] [elementOf body]
  root : ∀ body index,
    elementOf (.radical body (some index)) = .element .mroot [] [elementOf body, elementOf index]
  scripted : ∀ base sub sup placement,
    elementOf (.scripted base sub sup placement) =
      .element (scriptTag placement sub.isSome sup.isSome) []
        ((base :: sub.toList ++ sup.toList).map elementOf)
  accent : ∀ body glyph position,
    elementOf (.accent body glyph position) =
      .element (if position = .over then .mover else .munder) []
        [elementOf body, .element .mo glyph.toList []]
  fenced : ∀ opening closing body,
    elementOf (.fenced opening closing body) = fencedTree config opening closing (elementOf body)
  matrix : ∀ rows opening closing,
    elementOf (.matrix rows opening closing) =
      let table := tableTree (rows.map (·.map elementOf))
      if opening.isEmpty && closing.isEmpty then table
      else fencedTree config opening closing table
  styled : ∀ variant body, elementOf (.styled variant body) = .element .mstyle [] [elementOf body]
  phantom : ∀ body, elementOf (.phantom body) = .element .mphantom [] [elementOf body]

/-- The element of a node as a reader finds it, that is, the `tree` of its `presentation`. -/
def nodeTree (config : Config) (node : Layout) : Tree :=
  (presentation config node).tree

/-- Nodes in a row have one element each. -/
theorem trees_presentationAll (config : Config) (nodes : List Layout) :
    Element.trees (presentationAll config nodes) = nodes.map (nodeTree config) := by
  induction nodes with
  | nil => rfl
  | cons node nodes ih => simp [presentationAll, Element.trees, nodeTree, ih]

theorem trees_presentationOption (config : Config) (node : Option Layout) :
    Element.trees (presentationOption config node) = node.toList.map (nodeTree config) := by
  cases node <;> rfl

/-- Cells have one element each, around that of their node. -/
theorem trees_presentationCells (config : Config) (cells : List Layout) :
    Element.trees (presentationCells config cells)
      = cells.map fun cell => .element .mtd [] [nodeTree config cell] := by
  induction cells with
  | nil => rfl
  | cons cell cells ih => simp [presentationCells, Element.trees, Element.tree, nodeTree, ih]

/-- Rows have one element each, around those of their cells. -/
theorem trees_presentationRows (config : Config) (rows : List (List Layout)) :
    Element.trees (presentationRows config rows)
      = rows.map fun cells =>
        .element .mtr [] (cells.map fun cell => .element .mtd [] [nodeTree config cell]) := by
  induction rows with
  | nil => rfl
  | cons cells rows ih =>
    simp [presentationRows, Element.trees, Element.tree, trees_presentationCells, ih]

theorem trees_fenceGlyph (glyph : String) :
    Element.trees (fenceGlyph glyph) = glyphTrees glyph := by
  unfold fenceGlyph glyphTrees
  split <;> rfl

theorem trees_fencePadding (config : Config) :
    Element.trees (fencePadding config) = paddingTrees config := by
  unfold fencePadding paddingTrees
  split <;> rfl

theorem tree_fencedElement (config : Config) (opening closing : String) (body : Element) :
    (fencedElement config opening closing body).tree
      = fencedTree config opening closing body.tree := by
  simp only [fencedElement, Element.tree, Element.trees_append, fencedTree, trees_fenceGlyph,
    trees_fencePadding, Element.trees]

/-- **The elements of nodes are put together from those of their parts** (`Contributes`).  Each case
is a computation, with the lemmas on lists of nodes for rows, scripts and tables. -/
theorem contributes_nodeTree (config : Config) : Contributes config (nodeTree config) where
  row children := by
    simp [nodeTree, presentation, Element.tree, trees_presentationAll]
  fraction numerator denominator style := by
    cases style <;> rfl
  squareRoot body := rfl
  root body index := rfl
  scripted base sub sup placement := by
    simp [nodeTree, presentation, Element.tree, Element.trees, trees_presentationOption]
  accent body glyph position := by
    cases position <;> rfl
  fenced opening closing body := by
    simp only [nodeTree, presentation, tree_fencedElement]
  matrix rows opening closing := by
    have htable : ∀ attributes, (Element.container .mtable attributes
        (presentationRows config rows)).tree = tableTree (rows.map (·.map (nodeTree config))) := by
      intro attributes
      simp [Element.tree, tableTree, trees_presentationRows]
    -- without glyphs the table stands alone
    simp only [nodeTree, presentation, matrixElement]
    split
    · exact htable _
    · rw [tree_fencedElement, htable]
  styled variant body := rfl
  phantom body := rfl

/-! ## Every element has the children it may have

Two things are shown at once, since both are about every element in the element of a node: that it
has the children its tag asks for, and that it is none of the wrapper around formula and source. -/

/-- The wrapper of a formula and its source, and the element of the source. -/
def Tag.isWrapper : Tag → Bool
  | .semantics | .sourceText => true
  | _ => false

/-- What the element of a formula is built of: every element in it has the children that it may
have, and none is one of the wrapper. -/
inductive FormulaTree : Tree → Prop where
  | element {tag : Tag} {text : List Char} {children : List Tree} (htag : tag.isWrapper = false)
      (hadmits : tag.admits (children.map Tree.tag) = true)
      (hchildren : ∀ child ∈ children, FormulaTree child) :
      FormulaTree (.element tag text children)

namespace FormulaTree

/-- Such an element has the children it may have, all the way down, by induction on how it is
built. -/
theorem valid {tree : Tree} (h : FormulaTree tree) : tree.valid = true := by
  induction h with
  | element _ hadmits _ ih =>
    rw [Tree.valid, hadmits, Tree.validAll_eq, List.all_eq_true.mpr ih]
    rfl

variable {tag : Tag} {text : List Char} {first second : Tree}

theorem leaf (htag : tag.isWrapper = false) (hadmits : tag.admits [] = true) :
    FormulaTree (.element tag text []) :=
  .element htag hadmits fun _ hmem => absurd hmem List.not_mem_nil

theorem single (htag : tag.isWrapper = false) (hadmits : tag.admits [first.tag] = true)
    (h : FormulaTree first) : FormulaTree (.element tag text [first]) :=
  .element htag hadmits fun _ hmem => List.mem_singleton.mp hmem ▸ h

/-- An element with two child elements. -/
theorem pair (htag : tag.isWrapper = false) (hadmits : tag.admits [first.tag, second.tag] = true)
    (h : FormulaTree first) (h' : FormulaTree second) :
    FormulaTree (.element tag text [first, second]) := by
  refine .element htag hadmits fun child hmem => ?_
  simp only [List.mem_cons, List.not_mem_nil, or_false] at hmem
  rcases hmem with rfl | rfl
  · exact h
  · exact h'

end FormulaTree

/-- The element of a glyph is such an element. -/
theorem formulaTree_of_mem_glyphTrees {glyph : String} {tree : Tree}
    (h : tree ∈ glyphTrees glyph) : FormulaTree tree := by
  unfold glyphTrees at h
  split at h
  · cases h
  · exact List.mem_singleton.mp h ▸ .leaf rfl rfl

/-- The element of the padding is such an element, being empty. -/
theorem formulaTree_of_mem_paddingTrees {config : Config} {tree : Tree}
    (h : tree ∈ paddingTrees config) : FormulaTree tree := by
  unfold paddingTrees at h
  split at h
  · exact List.mem_singleton.mp h ▸ .leaf rfl rfl
  · cases h

/-- An element between two fences is such an element, if the body is. -/
theorem formulaTree_fencedTree (config : Config) (opening closing : String) {body : Tree}
    (h : FormulaTree body) : FormulaTree (fencedTree config opening closing body) := by
  refine .element rfl rfl fun child hmem => ?_
  simp only [List.mem_append, List.mem_singleton] at hmem
  rcases hmem with (((hmem | hmem) | rfl) | hmem) | hmem
  · exact formulaTree_of_mem_glyphTrees hmem
  · exact formulaTree_of_mem_paddingTrees hmem
  · exact h
  · exact formulaTree_of_mem_paddingTrees hmem
  · exact formulaTree_of_mem_glyphTrees hmem

/-- A table is such an element, if the elements of its cells are. -/
theorem formulaTree_tableTree {rows : List (List Tree)}
    (h : ∀ cells ∈ rows, ∀ cell ∈ cells, FormulaTree cell) : FormulaTree (tableTree rows) := by
  refine .element rfl (by simp [Tag.admits, Tree.tag]) fun row hrow => ?_
  obtain ⟨cells, hcells, rfl⟩ := List.mem_map.mp hrow
  refine .element rfl (by simp [Tag.admits, Tree.tag]) fun cell hcell => ?_
  obtain ⟨body, hbody, rfl⟩ := List.mem_map.mp hcell
  exact .single rfl rfl (h cells hcells body hbody)

/-- The element of a base with scripts has the number of children that its tag asks for: `msub`,
`msup` and their relatives two, `msubsup` and `munderover` three, and the `mrow` of a base alone any
number. -/
theorem admits_scriptTag (placement : ScriptPlacement) (base : Tag) (sub sup : Option Tag) :
    (scriptTag placement sub.isSome sup.isSome).admits (base :: sub.toList ++ sup.toList)
      = true := by
  cases placement <;> cases sub <;> cases sup <;> rfl

theorem isWrapper_scriptTag (placement : ScriptPlacement) (hasSub hasSup : Bool) :
    (scriptTag placement hasSub hasSup).isWrapper = false := by
  cases placement <;> cases hasSub <;> cases hasSup <;> rfl

/-- **Every element in the element of a node has the children it may have.** Induction over the
parts of the node (`Node.parts_induction`), with `Contributes` for the element of the node
itself. -/
theorem formulaTree_nodeTree (config : Config) (node : Layout) :
    FormulaTree (nodeTree config node) := by
  have hparts := contributes_nodeTree config
  -- induction on the node: its element is put together from those of its parts
  induction node using Node.parts_induction with
  | step node ih =>
    have hmap : ∀ tree ∈ node.parts.map (nodeTree config), FormulaTree tree := fun tree htree => by
      obtain ⟨part, hpart, rfl⟩ := List.mem_map.mp htree
      exact ih part hpart
    cases node with
    | row children =>
      rw [hparts.row]
      exact .element rfl rfl hmap
    | fraction numerator denominator style =>
      have hn := ih numerator (by simp [Node.parts])
      have hd := ih denominator (by simp [Node.parts])
      have hfraction : FormulaTree (.element .mfrac []
          [nodeTree config numerator, nodeTree config denominator]) := .pair rfl rfl hn hd
      rw [hparts.fraction]
      dsimp only
      split
      · exact hfraction
      · exact .single rfl rfl hfraction
    | radical body index =>
      -- with an index the element has two children, in the order of markup: the body comes first
      have hb := ih body (by simp [Node.parts])
      cases index with
      | none =>
        rw [hparts.squareRoot]
        exact .single rfl rfl hb
      | some index =>
        rw [hparts.root]
        exact .pair rfl rfl hb (ih index (by simp [Node.parts]))
    | scripted base sub sup placement =>
      -- the tag was chosen by the scripts that are there, and so was the number of children
      have htags := admits_scriptTag placement (nodeTree config base).tag
        (sub.map fun node => (nodeTree config node).tag)
        (sup.map fun node => (nodeTree config node).tag)
      rw [hparts.scripted]
      refine .element (isWrapper_scriptTag placement _ _) ?_ hmap
      cases sub <;> cases sup <;> simpa using htags
    | accent body glyph position =>
      have hb := ih body (by simp [Node.parts])
      rw [hparts.accent]
      cases position <;> exact .pair rfl rfl hb (.leaf rfl rfl)
    | fenced opening closing body =>
      rw [hparts.fenced]
      exact formulaTree_fencedTree config opening closing (ih body (by simp [Node.parts]))
    | matrix rows opening closing =>
      have htable : FormulaTree (tableTree (rows.map (·.map (nodeTree config)))) := by
        refine formulaTree_tableTree fun cells hcells cell hcell => ?_
        obtain ⟨row, hrow, rfl⟩ := List.mem_map.mp hcells
        obtain ⟨node, hnode, rfl⟩ := List.mem_map.mp hcell
        exact ih node (List.mem_flatten.mpr ⟨row, hrow, hnode⟩)
      rw [hparts.matrix]
      dsimp only
      split
      · exact htable
      · exact formulaTree_fencedTree config opening closing htable
    | styled variant body =>
      rw [hparts.styled]
      exact .single rfl rfl (ih body (by simp [Node.parts]))
    | phantom body =>
      rw [hparts.phantom]
      exact .single rfl rfl (ih body (by simp [Node.parts]))
    | text t kind => cases kind <;> exact .leaf rfl rfl
    | _ => exact .leaf rfl rfl

/-- The element of a node is `valid`, because it is a `FormulaTree`. -/
theorem nodeTree_valid (config : Config) (node : Layout) : (nodeTree config node).valid = true :=
  (formulaTree_nodeTree config node).valid

/-! ## Documents

A document is the root around the element of a node, or around the wrapper of that element and the
source. -/

/-- The root of a document as a reader finds it. -/
def rootTree (formula : Tree) (source : Option (List Char)) : Tree :=
  .element .math []
    [match source with
      | none => formula
      | some source => .element .semantics [] [formula, .element .sourceText source []]]

/-- The root of a document is found with what stands in it. -/
theorem tree_document (config : Config) (node : Layout) (source : Option (List Char)) :
    (document config node source).tree = rootTree (nodeTree config node) source := by
  cases source <;> rfl

/-- The root is valid if the element of the formula is. -/
theorem valid_rootTree {formula : Tree} (h : formula.valid = true) (source : Option (List Char)) :
    (rootTree formula source).valid = true := by
  cases source <;> simp [rootTree, Tree.valid, Tree.validAll, Tag.admits, h]

/-- **A document is read back** by `elements`, flat or indented, with the source or without, as one
root. -/
theorem elements_document (config : Config) (node : Layout) (source : Option (List Char))
    (pretty : Bool) :
    elements ((document config node source).print pretty)
      = some [rootTree (nodeTree config node) source] := by
  rw [elements_print (document_proper config node source), tree_document]

/-- **The output is well formed and has the arity that markup requires.**  Every node is read, at
every level of indentation, as exactly one element, to which each of its parts contributes exactly
one; and the whole output, for a layout or for a source, with or without the source beside it, is
read as exactly one `math` element.  Being read means that every closing tag meets its element
innermost, that nothing is left open, that angle brackets belong to tags and ampersands to the three
entities; and every element has the children it may have. -/
theorem markup_wellFormed (config : Config) :
    ∃ elementOf : Layout → Tree,
      Contributes config elementOf ∧
      (∀ level node, elements (nodeText config level node) = some [elementOf node]) ∧
      (∀ node, (elementOf node).valid = true) ∧
      (∀ node, ∃ root, elements (render config node) = some [root] ∧ root.tag = .math ∧
        root.children = [elementOf node] ∧ root.valid = true) ∧
      ∀ source, ∃ root, elements (convert config source) = some [root] ∧ root.tag = .math ∧
        root.children = (
          let formula := elementOf (parse config source).value
          if config.annotates then
            [.element .semantics [] [formula, .element .sourceText source []]]
          else [formula]) ∧
        root.valid = true := by
  refine ⟨nodeTree config, contributes_nodeTree config, fun level node => ?_,
    nodeTree_valid config, fun node => ?_, fun source => ?_⟩
  · -- a node at any level
    exact elements_textAt (presentation_proper config node) level
  · exact ⟨_, elements_document config node none _, rfl, rfl,
      valid_rootTree (nodeTree_valid config node) none⟩
  · -- a source, which goes with its formula if the configuration says so
    refine ⟨_, elements_document config (parse config source).value _ _, rfl, ?_,
      valid_rootTree (nodeTree_valid config _) _⟩
    cases config.annotates <;> rfl

end FormulaMarkup.Markup
