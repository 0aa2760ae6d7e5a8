import FormulaMarkup.Proofs.Markup.Dependence

/-!
# FormulaMarkup — one formula under two configurations

The elements of a formula under two configurations are the same up to their attributes, as long as
both configurations write the padding of fences or neither does.  This module says so once, for any
relation between the attributes, and keeps account of the elements that come from the operators of
the formula.

With the relation that always holds, what follows is about tags and texts alone; with equality,
about everything but operators; and with one configuration on both sides, about all the attributes
that it gives rise to.

* **`Node.operators`** — the operators of a formula, in document order.
* **`Corresponds`** — elements that are the same up to related attributes.
* **`Admits`** — the attributes that two configurations give rise to are related.
* **`corresponds_presentation`**, **`corresponds_document`** — the elements of a formula correspond.
-/

namespace FormulaMarkup.Node

variable {W P : Type}

/-- The text of an operator, and whether it is large. -/
def ownOperators : Node W P → List (String × Bool)
  | .operator t large => [(t, large)]
  | _ => []

/-- The operators of a formula, in document order.  The recursion goes through `parts`, and so it is
on the size of the node. -/
def operators (node : Node W P) : List (String × Bool) :=
  node.ownOperators ++ node.parts.attach.flatMap fun part => operators part.1
termination_by sizeOf node
decreasing_by exact sizeOf_lt_of_mem_parts part.2

/-- The `operators` of a formula are its own and those of its parts. -/
theorem operators_eq (node : Node W P) :
    node.operators = node.ownOperators ++ node.parts.flatMap operators := by
  rw [operators]
  congr 1
  rw [List.flatMap_def, List.flatMap_def, List.map_attach_eq_pmap, List.pmap_eq_map]

end FormulaMarkup.Node

namespace FormulaMarkup.Markup

/-- The elements of `es` and `es'` are the same up to attributes that are related by `R`.  Those of
the operators `ops`, in their order, are what the two configurations make of them, and are not asked
to be related. -/
inductive Corresponds (c c' : Config) (R : List Attribute → List Attribute → Prop) :
    List (String × Bool) → List Element → List Element → Prop where
  | nil : Corresponds c c' R [] [] []
  | operator (text : String) (large : Bool) :
      Corresponds c c' R [(text, large)] [operatorElement c text large]
        [operatorElement c' text large]
  | token (tag : Tag) (text : List Char) {as as' : List Attribute} (h : R as as') :
      Corresponds c c' R [] [.token tag as text] [.token tag as' text]
  | void (tag : Tag) {as as' : List Attribute} (h : R as as') :
      Corresponds c c' R [] [.void tag as] [.void tag as']
  | container (tag : Tag) {as as' : List Attribute} {ops : List (String × Bool)}
      {es es' : List Element} (h : R as as') (hchildren : Corresponds c c' R ops es es') :
      Corresponds c c' R ops [.container tag as es] [.container tag as' es']
  | append {ops ops' : List (String × Bool)} {es es' fs fs' : List Element}
      (h : Corresponds c c' R ops es es') (h' : Corresponds c c' R ops' fs fs') :
      Corresponds c c' R (ops ++ ops') (es ++ fs) (es' ++ fs')

/-- The attributes with a fixed value. -/
def keywords : List (String × String) :=
  [("mathvariant", "normal"), ("mathvariant", "bold"), ("mathvariant", "italic"),
   ("mathvariant", "double-struck"), ("mathvariant", "monospace"), ("mathvariant", "script"),
   ("mathvariant", "fraktur"), ("displaystyle", "true"), ("displaystyle", "false"),
   ("accent", "true"), ("accentunder", "true"), ("fence", "true"), ("stretchy", "true"),
   ("lspace", "0em"), ("rspace", "0em"), ("linebreak", "newline"),
   ("encoding", "application/x-tex")]

/-- Attributes with fixed values, from their names and values. -/
def keywordAttributes (pairs : List (String × String)) : List Attribute :=
  pairs.map fun pair => .fixed pair.1 pair.2

/-- The attributes of fractions, which depend on the configuration. -/
def fractionAttributes (c : Config) : List Attribute :=
  emAttribute "linethickness" c.fracLineThickness ::
    (alignmentAttributes "numalign" c.fracNumAlign
      ++ alignmentAttributes "denomalign" c.fracDenomAlign)

/-- The attributes of tables, which depend on the configuration, too. -/
def tableAttributes (c : Config) : List Attribute :=
  [emAttribute "rowspacing" c.matrixRowGap, emAttribute "columnspacing" c.matrixColGap]

/-- The attribute of a space. -/
def widthAttributes (width : Float) : List Attribute := [emAttribute "width" width]

/-- Both configurations write the padding of fences or neither does, and `R` relates the attributes
that they give rise to.  With this no element has to be looked at again. -/
structure Admits (c c' : Config) (R : List Attribute → List Attribute → Prop) : Prop where
  padding : c.hasFencePadding = c'.hasFencePadding
  keyword : ∀ pairs, (∀ pair ∈ pairs, pair ∈ keywords) →
    R (keywordAttributes pairs) (keywordAttributes pairs)
  fraction : R (fractionAttributes c) (fractionAttributes c')
  table : R (tableAttributes c) (tableAttributes c')
  paddingWidth : R (widthAttributes c.fencePadding) (widthAttributes c'.fencePadding)

/-- `R` relates the attributes of a node that is a space to themselves.  The width of a space is in
the layout already, and so it is the same under both configurations. -/
def AdmitsSpace (R : List Attribute → List Attribute → Prop) (node : Layout) : Prop :=
  ∀ width, node = .space width → R (widthAttributes width) (widthAttributes width)

/-! ## Lists of elements

One lemma for each construct, as always when something is shown of the element of a node. -/

/-- `presentationAll` makes the elements of nodes in a row, one of each. -/
theorem presentationAll_eq_map (c : Config) (nodes : List Layout) :
    presentationAll c nodes = nodes.map (presentation c) := by
  induction nodes with
  | nil => rfl
  | cons node nodes ih => rw [presentationAll, ih, List.map_cons]

section Corresponds

variable {c c' : Config} {R : List Attribute → List Attribute → Prop}

theorem Corresponds.of_ops_eq {ops ops' : List (String × Bool)} {es es' : List Element}
    (h : Corresponds c c' R ops es es') (hops : ops = ops') : Corresponds c c' R ops' es es' :=
  hops ▸ h

/-- Nodes whose elements correspond one by one correspond in a row, with the operators of all of
them. -/
theorem corresponds_map {nodes : List Layout}
    (h : ∀ node ∈ nodes,
      Corresponds c c' R node.operators [presentation c node] [presentation c' node]) :
    Corresponds c c' R (nodes.flatMap Node.operators) (nodes.map (presentation c))
      (nodes.map (presentation c')) := by
  induction nodes with
  | nil => exact .nil
  | cons node nodes ih =>
    exact (h node List.mem_cons_self).append (ih fun n hn => h n (List.mem_cons_of_mem node hn))

variable (h : Admits c c' R)
include h

theorem Admits.bare : R [] [] := h.keyword [] fun _ hp => absurd hp List.not_mem_nil

/-- The cells of a row correspond if what stands in them does; the `mtd` around each has no
attributes. -/
theorem corresponds_cells {cells : List Layout}
    (hcells : ∀ cell ∈ cells,
      Corresponds c c' R cell.operators [presentation c cell] [presentation c' cell]) :
    Corresponds c c' R (cells.flatMap Node.operators) (presentationCells c cells)
      (presentationCells c' cells) := by
  induction cells with
  | nil => exact .nil
  | cons cell cells ih =>
    have hcell := Corresponds.container .mtd h.bare (hcells cell List.mem_cons_self)
    exact hcell.append (ih fun n hn => hcells n (List.mem_cons_of_mem cell hn))

/-- The rows of a table correspond if all its cells do. -/
theorem corresponds_rows {rows : List (List Layout)}
    (hrows : ∀ cell ∈ rows.flatten,
      Corresponds c c' R cell.operators [presentation c cell] [presentation c' cell]) :
    Corresponds c c' R (rows.flatten.flatMap Node.operators) (presentationRows c rows)
      (presentationRows c' rows) := by
  induction rows with
  | nil => exact .nil
  | cons cells rows ih =>
    have hcells := corresponds_cells h fun cell hcell =>
      hrows cell (List.mem_append_left rows.flatten hcell)
    have hothers := ih fun cell hcell => hrows cell (List.mem_append_right cells hcell)
    rw [List.flatten_cons, List.flatMap_append]
    exact (Corresponds.container .mtr h.bare hcells).append hothers

/-- The glyph of a fence does not depend on the configuration. -/
theorem corresponds_fenceGlyph (glyph : String) :
    Corresponds c c' R [] (fenceGlyph glyph) (fenceGlyph glyph) := by
  unfold fenceGlyph
  split
  · exact .nil
  · exact .token .mo _ (h.keyword
      [("fence", "true"), ("stretchy", "true"), ("lspace", "0em"), ("rspace", "0em")] (by decide))

/-- The padding of a fence is there under both configurations or under neither, by
`Admits.padding`. -/
theorem corresponds_fencePadding :
    Corresponds c c' R [] (fencePadding c) (fencePadding c') := by
  unfold fencePadding
  rw [← h.padding]
  split
  · exact .void .mspace h.paddingWidth
  · exact .nil

/-- Elements that correspond do so between two fences.  Neither the glyphs nor the padding are
`operators` of the formula. -/
theorem corresponds_fencedElement (opening closing : String) {ops : List (String × Bool)}
    {body body' : Element} (hbody : Corresponds c c' R ops [body] [body']) :
    Corresponds c c' R ops [fencedElement c opening closing body]
      [fencedElement c' opening closing body'] := by
  have hpadding := corresponds_fencePadding h
  have hopening := corresponds_fenceGlyph h opening
  have hclosing := corresponds_fenceGlyph h closing
  have hall := (((hopening.append hpadding).append hbody).append hpadding).append hclosing
  exact .container .mrow h.bare (hall.of_ops_eq (by simp))

/-- An identifier does not depend on the configuration. -/
theorem corresponds_identifierElement (text : String) (upright : Bool) :
    Corresponds c c' R [] [identifierElement text upright] [identifierElement text upright] := by
  unfold identifierElement
  split
  · exact .token .mi _ (h.keyword [("mathvariant", "normal")] (by decide))
  · exact .token .mi _ h.bare

/-- Fractions correspond if their parts do. -/
theorem corresponds_fractionElement (style : FractionStyle) {ops : List (String × Bool)}
    {numerator denominator numerator' denominator' : Element}
    (hparts : Corresponds c c' R ops [numerator, denominator] [numerator', denominator']) :
    Corresponds c c' R ops [fractionElement c numerator denominator style]
      [fractionElement c' numerator' denominator' style] := by
  have hfraction := Corresponds.container .mfrac h.fraction hparts
  cases style with
  | inherit => exact hfraction
  | display => exact .container .mstyle (h.keyword [("displaystyle", "true")] (by decide)) hfraction
  | text => exact .container .mstyle (h.keyword [("displaystyle", "false")] (by decide)) hfraction

/-- Accents correspond if what they stand over or under does.  The mark is a token of its own and no
operator of the formula. -/
theorem corresponds_accentElement (glyph : String) (position : AccentPosition)
    {ops : List (String × Bool)} {body body' : Element}
    (hbody : Corresponds c c' R ops [body] [body']) :
    Corresponds c c' R ops [accentElement body glyph position]
      [accentElement body' glyph position] := by
  have hmark : Corresponds c c' R [] [.token .mo [.fixed "accent" "true"] glyph.toList]
      [.token .mo [.fixed "accent" "true"] glyph.toList] :=
    .token .mo glyph.toList (h.keyword [("accent", "true")] (by decide))
  have hparts := (hbody.append hmark).of_ops_eq (List.append_nil ops)
  cases position with
  | «over» => exact .container .mover (h.keyword [("accent", "true")] (by decide)) hparts
  | under => exact .container .munder (h.keyword [("accentunder", "true")] (by decide)) hparts

/-- Tables correspond if their rows do, alone or between fences. -/
theorem corresponds_matrixElement (opening closing : String) {ops : List (String × Bool)}
    {rows rows' : List Element} (hrows : Corresponds c c' R ops rows rows') :
    Corresponds c c' R ops [matrixElement c rows opening closing]
      [matrixElement c' rows' opening closing] := by
  have htable := Corresponds.container .mtable h.table hrows
  unfold matrixElement
  dsimp only
  split
  · exact htable
  · exact corresponds_fencedElement h opening closing htable

/-- **The elements of a formula correspond.** The operators among them come from the `operators` of
the formula, one by one and in order. -/
theorem corresponds_presentation {node : Layout} (hspaces : node.Everywhere (AdmitsSpace R)) :
    Corresponds c c' R node.operators [presentation c node] [presentation c' node] := by
  -- induction on the node: the parts correspond, and the element puts them together
  induction node using Node.parts_induction with
  | step node ih =>
    obtain ⟨_, hhere, hbelow⟩ := hspaces
    have hpart : ∀ part ∈ node.parts,
        Corresponds c c' R part.operators [presentation c part] [presentation c' part] :=
      fun part hp => ih part hp (hbelow part hp)
    have hparts := corresponds_map hpart
    rw [Node.operators_eq]
    cases node with
    | row children =>
      rw [presentation, presentation, presentationAll_eq_map, presentationAll_eq_map]
      exact .container .mrow h.bare hparts
    | identifier text upright => exact corresponds_identifierElement h text upright
    | number text => exact .token .mn text.toList h.bare
    | operator text large => exact .operator text large
    | text text kind =>
      cases kind with
      | words => exact .token .mtext text.toList h.bare
      | operatorName => exact corresponds_identifierElement h text true
    | fraction numerator denominator style => exact corresponds_fractionElement h style hparts
    | radical body index =>
      cases index with
      | none => exact .container .msqrt h.bare hparts
      | some index => exact .container .mroot h.bare hparts
    | scripted base sub sup place =>
      refine .container _ h.bare ?_
      cases sub <;> cases sup <;> exact hparts
    | accent body glyph position =>
      exact corresponds_accentElement h glyph position hparts
    | fenced opening closing body => exact corresponds_fencedElement h opening closing hparts
    | matrix rows opening closing =>
      exact corresponds_matrixElement h opening closing (corresponds_rows h hpart)
    | styled variant body =>
      refine .container .mstyle (h.keyword [("mathvariant", variant.name)] ?_) hparts
      cases variant <;> decide
    | space width => exact .void .mspace (hhere width rfl)
    | phantom body => exact .container .mphantom h.bare hparts
    | lineBreak => exact .void .mspace (h.keyword [("linebreak", "newline")] (by decide))

/-- The documents of a formula correspond, with or without the source. -/
theorem corresponds_document (hroot : R (rootAttributes c) (rootAttributes c')) {node : Layout}
    (hspaces : node.Everywhere (AdmitsSpace R)) (source : Option (List Char)) :
    Corresponds c c' R node.operators [document c node source] [document c' node source] := by
  have hnode := corresponds_presentation h hspaces
  refine .container .math hroot ?_
  cases source with
  | none => exact hnode
  | some source =>
    have hsource : Corresponds c c' R []
        [.token .sourceText [.fixed "encoding" "application/x-tex"] source]
        [.token .sourceText [.fixed "encoding" "application/x-tex"] source] :=
      .token .sourceText source (h.keyword [("encoding", "application/x-tex")] (by decide))
    have hboth := (hnode.append hsource).of_ops_eq (List.append_nil _)
    exact .container .semantics h.bare hboth

end Corresponds

end FormulaMarkup.Markup
