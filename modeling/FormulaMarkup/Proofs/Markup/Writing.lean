import FormulaMarkup.Proofs.Markup.Pieces
import FormulaMarkup.Proofs.Markup.Writer

/-!
# FormulaMarkup — what writers write

A `Writer` hands the indentation level from construct to construct.  Here it is shown that nothing
goes wrong on the way: at every level it writes the text of the element of a node, and for a whole
document the text that `Element.print` lays out line by line.

The induction is on the node, and it goes through one construct at a time: what a construct pushes
by itself is a tag of its element, and what it leaves to its parts they have written at the level
below.  The level stays arbitrary throughout, zero included, so that flat and indented output are
one case.

* **`Writes`** — that a writer appends a given text, whatever stands before it.
* **`Writes.seq`** — one writer after another.
* **`textAt_eq`** and its neighbours — the text of an element at a level, by its parts.
* **`writes_node`** — a node is written as `nodeText` has it.
* **`writes_math`**, **`convert_eq_written`** — so is a document, and the markup of a source.
-/

namespace FormulaMarkup.Markup

/-! ## Writers and texts

The output only ever grows at its end.  So what a writer does is a text, and one writer after
another does the one text after the other; no lemma behind this section looks at the output any
more. -/

/-- The writer appends the text, whatever the output is so far.  In particular it does not look at
the output, for instance to find out whether a line has been started. -/
def Writes (w : Writer) (text : List Char) : Prop := ∀ out, w out = ((), out ++ text)

namespace Writes

open Writer

variable {w v : Writer} {s t : List Char}

theorem congr (h : Writes w s) (heq : s = t) : Writes w t := heq ▸ h

theorem nothing : Writes (pure ()) [] := by
  intro out
  rw [List.append_nil]
  rfl

/-- **One writer after another.** The second one starts on the output of the first, so `w` and then
`v` write the text of `w` followed by that of `v`. -/
theorem seq (hw : Writes w s) (hv : Writes v t) : Writes (w >>= fun _ => v) (s ++ t) := by
  intro out
  show v (w out).2 = _
  rw [hw out, hv, List.append_assoc]

theorem push (piece : String) : Writes (push piece) piece.toList := fun _ => rfl

theorem pushNumber (value : Float) : Writes (pushNumber value) (Decimal.markupText value) :=
  fun _ => rfl

/-- Character data is written as `Text.escape` has it: the loop of `appendEscaped` comes to the same
as escaping character by character. -/
theorem pushEscaped (text : List Char) : Writes (pushEscaped text) (Text.escape text) := by
  intro out
  show ((), Text.appendEscaped out text) = _
  rw [Text.appendEscaped_eq]

theorem when (condition : Bool) (h : Writes w s) :
    Writes (when condition w) (if condition then s else []) := by
  cases condition with
  | false => exact nothing
  | true => exact h

/-- Four blanks are written for each level, by induction on the level. -/
theorem indent (level : Nat) : Writes (indent level) (List.replicate (4 * level) ' ') := by
  induction level with
  | zero => exact nothing
  | succ level ih =>
    refine ((Writes.push "    ").seq ih).congr ?_
    rw [show 4 * (level + 1) = 4 + 4 * level by omega, ← List.replicate_append_replicate]
    rfl

/-- A line break is what `indentation` adds before a line, at level zero nothing. -/
theorem newLine (level : Nat) : Writes (newLine level) (indentation level) := by
  refine ((when (0 < level) (push "\n")).seq (indent level)).congr ?_
  cases level <;> rfl

/-- A piece on a line of its own has the line break of its level in front. -/
theorem line (level : Nat) (piece : String) :
    Writes (line level piece) (indentation level ++ piece.toList) :=
  (newLine level).seq (push piece)

end Writes

/-! ## The text of an element

`Element.textAt` goes through the lines of the whole element.  The equations of this section take it
apart at the outermost element, which is what a writer does: each part stands one level deeper, and
for level zero as deep as before. -/

open Writer

mutual

/-- The depth of an element changes nothing but the depths of its lines, which flat output does not
look at. -/
theorem flat_lines (d d' : Nat) : ∀ e : Element, flat (e.lines d) = flat (e.lines d')
  | .token _ _ _ => rfl
  | .void _ _ => rfl
  | .container tag attributes children => by
    have h := flat_linesAll (d + 1) (d' + 1) children
    simp only [flat] at h
    simp [Element.lines, flat, h]

/-- The depth of several elements changes nothing but the depths of their lines, either. -/
theorem flat_linesAll (d d' : Nat) :
    ∀ es : List Element, flat (Element.linesAll d es) = flat (Element.linesAll d' es)
  | [] => rfl
  | e :: es => by
    have he := flat_lines d d' e
    have hes := flat_linesAll d d' es
    simp only [flat] at he hes
    simp [Element.linesAll, flat, he, hes]

end

/-- The texts of elements that stand one after the other at one level. -/
def textsAt (level : Nat) (es : List Element) : List Char := es.flatMap (Element.textAt level)

@[simp] theorem textsAt_nil (level : Nat) : textsAt level [] = [] := rfl

@[simp] theorem textsAt_cons (level : Nat) (e : Element) (es : List Element) :
    textsAt level (e :: es) = e.textAt level ++ textsAt level es := rfl

@[simp] theorem textsAt_append (level : Nat) (es es' : List Element) :
    textsAt level (es ++ es') = textsAt level es ++ textsAt level es' :=
  List.flatMap_append

/-- At level zero `textAt` puts the lines together as they are. -/
theorem textAt_zero (e : Element) : e.textAt 0 = flat (e.lines 0) := rfl

/-- At any other level `textAt` indents each line. -/
theorem textAt_of_pos {level : Nat} (h : 0 < level) (e : Element) :
    e.textAt level = indented (e.lines level) :=
  if_neg (Nat.ne_of_gt h)

/-- The flat lines of several elements are their flat texts (`textsAt`), from whatever depth they
are counted. -/
theorem flat_linesAll_eq_textsAt (d : Nat) (es : List Element) :
    flat (Element.linesAll d es) = textsAt 0 es := by
  induction es with
  | nil => rfl
  | cons e es ih =>
    rw [Element.linesAll, textsAt_cons, textAt_zero, ← ih, flat_lines 0 d e]
    simp [flat]

/-- The indented lines of several elements are their texts at this level. -/
theorem indented_linesAll_eq_textsAt {level : Nat} (h : 0 < level) (es : List Element) :
    indented (Element.linesAll level es) = textsAt level es := by
  induction es with
  | nil => rfl
  | cons e es ih =>
    rw [Element.linesAll, textsAt_cons, textAt_of_pos h, ← ih]
    simp [indented]

/-- The text of an element from its first tag on, that is, `textAt` without the line break before
it. -/
def Element.textFrom (level : Nat) : Element → List Char
  | .token tag attributes text => openTag tag attributes ++ (Text.escape text ++ closeTag tag)
  | .void tag attributes => voidTag tag attributes
  | .container tag attributes children =>
    openTag tag attributes ++
      (textsAt (childLevel level) children ++ (indentation level ++ closeTag tag))

/-- **An element is its line break and what follows.** The parts of an element that holds others
stand at `childLevel`, and both its tags at its own level.  This is the recursion of `Writer.node`,
read off the lines of the element; the two ways of printing are its two cases. -/
theorem textAt_eq (level : Nat) (e : Element) :
    e.textAt level = indentation level ++ e.textFrom level := by
  rcases Nat.eq_zero_or_pos level with rfl | hlevel
  · -- flat output: the depths of the lines are not looked at
    rw [textAt_zero]
    cases e with
    | token tag attributes text =>
      simp [Element.lines, flat, indentation, Element.textFrom, Text.appendEscaped_eq]
    | void tag attributes => simp [Element.lines, flat, indentation, Element.textFrom]
    | container tag attributes children =>
      -- the children of a container are at any depth what they are at depth zero
      rw [Element.textFrom, childLevel, if_neg (Nat.lt_irrefl 0), ← flat_linesAll_eq_textsAt 1]
      simp [Element.lines, flat, indentation]
  · have hne : level ≠ 0 := by omega
    rw [textAt_of_pos hlevel]
    cases e with
    | token tag attributes text =>
      simp [Element.lines, indented, indentation, hne, Element.textFrom, Text.appendEscaped_eq]
    | void tag attributes =>
      simp [Element.lines, indented, indentation, hne, Element.textFrom]
    | container tag attributes children =>
      rw [Element.textFrom, childLevel, if_pos hlevel,
        ← indented_linesAll_eq_textsAt (Nat.succ_pos level)]
      simp [Element.lines, indented, indentation, hne]

/-! ## Constructs

One lemma for each construct that is no node by itself.  What is pushed is a tag of the element or a
part of one, which is seen by writing the tag out. -/

/-- The closing tag of `tag` on a line of its own.  That `piece` is this tag is left to
computation. -/
theorem Writes.closing (tag : Tag) {piece : String} (level : Nat)
    (h : closeTag tag = piece.toList) :
    Writes (Writer.line level piece) (indentation level ++ closeTag tag) :=
  (Writes.line level piece).congr (by rw [h])

/-- Character data between its two tags, as in `mi`, `mn`, `mo` and `mtext`. -/
theorem Writes.token {tag : Tag} {attributes : List Attribute} {opening closing : String}
    (level : Nat) (text : List Char) (hopen : openTag tag attributes = opening.toList)
    (hclose : closeTag tag = closing.toList) :
    Writes (do Writer.push opening; Writer.pushEscaped text; Writer.push closing)
      ((Element.token tag attributes text).textFrom level) := by
  rw [Element.textFrom, hopen, hclose]
  exact (Writes.push opening).seq ((Writes.pushEscaped text).seq (Writes.push closing))

/-- `spacing` writes two attributes with the same width, one for each side. -/
theorem writes_spacing (config : Config) :
    Writes (spacing config) ([emAttribute "lspace" config.operatorSpacing,
      emAttribute "rspace" config.operatorSpacing].flatMap Attribute.text) := by
  refine ((Writes.push _).seq ((Writes.pushNumber _).seq ((Writes.push _).seq
    ((Writes.pushNumber _).seq (Writes.push _))))).congr ?_
  simp [emAttribute, lengthText, Attribute.text]

/-- An operator is written with all its attributes, in their order: whether it is large, and then
its spacing, for which the writer asks under the condition of `spacingAttributes`. -/
theorem writes_operator (config : Config) (level : Nat) (text : String) (large : Bool) :
    Writes (operator config text large) ((operatorElement config text large).textFrom level) := by
  refine ((Writes.push _).seq ((Writes.when large (Writes.push _)).seq
    ((Writes.when _ (writes_spacing config)).seq ((Writes.push _).seq
      ((Writes.pushEscaped _).seq (Writes.push _)))))).congr ?_
  rw [operatorElement, Element.textFrom, openTag, spacingAttributes, List.flatMap_append]
  simp only [apply_ite (List.flatMap Attribute.text)]
  cases large <;> split <;> simp [Attribute.fixed, Attribute.text, Tag.name, closeTag]

/-- `alignment` writes an attribute, or nothing at all.  What is pushed before the value is the name
with the quote that opens it. -/
theorem writes_alignment (name opening : String) (a? : Option Alignment)
    (h : opening.toList = ' ' :: name.toList ++ ['=', '"']) :
    Writes (alignment opening a?) ((alignmentAttributes name a?).flatMap Attribute.text) := by
  cases a? with
  | none => exact .nothing
  | some a =>
    refine ((Writes.push _).seq ((Writes.push _).seq (Writes.push _))).congr ?_
    simp [alignmentAttributes, Attribute.fixed, Attribute.text, h]

/-- A fraction is written from the place where the output stands; its two parts write themselves at
`childLevel`, which the hypotheses `hn` and `hd` provide for every level. -/
theorem writes_fraction (config : Config) (level : Nat) {numerator denominator : Nat → Writer}
    {n d : Element} (hn : ∀ level, Writes (numerator level) (n.textAt level))
    (hd : ∀ level, Writes (denominator level) (d.textAt level)) :
    Writes (fraction config level numerator denominator)
      ((Element.container .mfrac (emAttribute "linethickness" config.fracLineThickness ::
        (alignmentAttributes "numalign" config.fracNumAlign
          ++ alignmentAttributes "denomalign" config.fracDenomAlign)) [n, d]).textFrom level) := by
  refine ((Writes.push _).seq ((Writes.pushNumber _).seq ((Writes.push _).seq
    ((writes_alignment "numalign" _ _ rfl).seq ((writes_alignment "denomalign" _ _ rfl).seq
      ((Writes.push _).seq ((hn _).seq ((hd _).seq
        (Writes.closing .mfrac level rfl))))))))).congr ?_
  simp [Element.textFrom, openTag, Tag.name, emAttribute, lengthText, Attribute.text]

theorem writes_space (level : Nat) (width : Float) :
    Writes (space width) ((spaceElement width).textFrom level) := by
  refine ((Writes.push _).seq ((Writes.pushNumber _).seq (Writes.push _))).congr ?_
  simp [spaceElement, Element.textFrom, voidTag, Tag.name, emAttribute, lengthText, Attribute.text]

/-- `fenceGlyph` writes the glyph with its line break, or nothing at all if it is empty. -/
theorem writes_fenceGlyph (level : Nat) (glyph : String) :
    Writes (Writer.fenceGlyph level glyph) (textsAt level (fenceGlyph glyph)) := by
  unfold Writer.fenceGlyph fenceGlyph
  split
  · exact .nothing
  · rw [textsAt_cons, textsAt_nil, List.append_nil, textAt_eq]
    refine (((Writes.newLine level).seq (Writes.push _)).seq
      ((Writes.pushEscaped _).seq (Writes.push _))).congr ?_
    simp [Element.textFrom, openTag, closeTag, Tag.name, Attribute.fixed, Attribute.text]

/-- So is the padding, under the condition that `Config.hasFencePadding` denies: the writer asks
whether there is none, and the presentation whether there is some. -/
theorem writes_fencePadding (config : Config) (level : Nat) :
    Writes (Writer.fencePadding config level) (textsAt level (fencePadding config)) := by
  have hhas : config.hasFencePadding
      = !(config.fencePadding == 0.0 || config.fencePadding.isNaN) := by
    rw [Config.hasFencePadding, Bool.not_or]
  unfold Writer.fencePadding fencePadding
  rw [hhas]
  -- without padding nothing is written, and otherwise the space stands on a line of its own
  cases config.fencePadding == 0.0 || config.fencePadding.isNaN with
  | true => exact .nothing
  | false =>
    refine ((Writes.newLine level).seq (writes_space level _)).congr ?_
    rw [← textAt_eq]
    simp

/-- A table is written from the place where the output stands, and its rows at `childLevel`. -/
theorem writes_table (config : Config) (level : Nat) {rows : Nat → Writer} {es : List Element}
    (hrows : ∀ level, Writes (rows level) (textsAt level es)) :
    Writes (table config level rows)
      ((Element.container .mtable [emAttribute "rowspacing" config.matrixRowGap,
        emAttribute "columnspacing" config.matrixColGap] es).textFrom level) := by
  refine ((Writes.push _).seq ((Writes.pushNumber _).seq ((Writes.push _).seq
    ((Writes.pushNumber _).seq ((Writes.push _).seq ((hrows _).seq
      (Writes.closing .mtable level rfl))))))).congr ?_
  simp [Element.textFrom, openTag, Tag.name, emAttribute, lengthText, Attribute.text]

/-! ## Nodes

One case for each kind of node.  Its line break has been written by `Writer.node`, so what is left
is the element from its first tag on; the parts of the node are known by induction, at every level.
-/

/-- A node is written if it is written from its first tag on (`Element.textFrom`), since
`Writer.node` starts with the line break. -/
theorem Writes.node {level : Nat} {w : Writer} {e : Element} (h : Writes w (e.textFrom level)) :
    Writes (Writer.newLine level >>= fun _ => w) (e.textAt level) :=
  ((Writes.newLine level).seq h).congr (textAt_eq level e).symm

/-- An element that holds others is its first tag and what is written behind it, which has to be the
texts of the children and the closing tag on its line. -/
theorem Writes.container {tag : Tag} {attributes : List Attribute} {children : List Element}
    {level : Nat} {w : Writer} {inner : List Char} (opening : String)
    (hopen : openTag tag attributes = opening.toList) (h : Writes w inner)
    (hinner : inner = textsAt (childLevel level) children ++ (indentation level ++ closeTag tag)) :
    Writes (Writer.push opening >>= fun _ => w)
      ((Element.container tag attributes children).textFrom level) := by
  rw [Element.textFrom, hopen, ← hinner]
  exact (Writes.push opening).seq h

mutual

/-- **A node is written as `nodeText` has it, at every level.** The recursion is that of the node;
each case says which tag is pushed where, and leaves the tags themselves to computation. -/
theorem writes_node (config : Config) (level : Nat) :
    ∀ layout : Layout, Writes (node config level layout) (nodeText config level layout)
  -- the children write their line breaks, and the row writes that of its closing tag
  | .row children => by
    have hchildren := writes_nodes config (childLevel level) children
    exact .node (.container "<mrow>" rfl (hchildren.seq (.closing .mrow level rfl)) rfl)
  | .identifier text true => .node (.token level text.toList rfl rfl)
  | .identifier text false => .node (.token level text.toList rfl rfl)
  | .number text => .node (.token level text.toList rfl rfl)
  | .operator text large => .node (writes_operator config level text large)
  | .text text .words => .node (.token level text.toList rfl rfl)
  | .text text .operatorName => .node (.token level text.toList rfl rfl)
  | .fraction numerator denominator style => by
    have hfraction := fun level => writes_fraction config level
      (fun l => writes_node config l numerator) (fun l => writes_node config l denominator)
    -- with a size of its own the fraction stands one level below the element that sets the size
    have hsized := fun size : String => (Writes.push "<mstyle displaystyle=\"").seq
      ((Writes.push size).seq ((Writes.push "\">").seq ((Writes.newLine (childLevel level)).seq
        ((hfraction (childLevel level)).seq (.line level "</mstyle>")))))
    cases style with
    | inherit => exact .node (hfraction level)
    | display =>
      refine .node ((hsized "true").congr ?_)
      simp [presentation, fractionElement, FractionStyle.displayed, Element.textFrom, textAt_eq,
        openTag, closeTag, Tag.name, Attribute.fixed, Attribute.text]
    | text =>
      refine .node ((hsized "false").congr ?_)
      simp [presentation, fractionElement, FractionStyle.displayed, Element.textFrom, textAt_eq,
        openTag, closeTag, Tag.name, Attribute.fixed, Attribute.text]
  | .radical body (some index) => by
    have hbody := writes_node config (childLevel level) body
    have hindex := writes_node config (childLevel level) index
    exact .node (.container "<mroot>" rfl (hbody.seq (hindex.seq (.closing .mroot level rfl)))
      (by simp [nodeText]))
  | .radical body none => by
    have hbody := writes_node config (childLevel level) body
    exact .node (.container "<msqrt>" rfl (hbody.seq (.closing .msqrt level rfl))
      (by simp [nodeText]))
  | .scripted base sub sup placement => by
    have hbase := writes_node config (childLevel level) base
    have hsub := writes_script config (childLevel level) sub
    have hsup := writes_script config (childLevel level) sup
    -- the tag depends on which scripts are there, so no text of it is known in advance
    refine .node (.container _ ?_ (hbase.seq (hsub.seq (hsup.seq
      (.closing (scriptTag placement sub.isSome sup.isSome) level ?_)))) ?_)
    · simp [openTag]
    · simp [closeTag]
    · simp [nodeText]
  | .accent body glyph position => by
    have hbody := writes_node config (childLevel level) body
    -- the mark is written on a line of its own, not as a node
    have hmark := (Writes.line (childLevel level) "<mo accent=\"true\">").seq
      ((Writes.pushEscaped glyph.toList).seq (.push "</mo>"))
    cases position
    · refine .node (.container "<mover accent=\"true\">" rfl
        (hbody.seq (hmark.seq (.closing .mover level rfl))) ?_)
      simp [nodeText, textAt_eq, Element.textFrom, openTag, closeTag, Tag.name, Attribute.fixed,
        Attribute.text]
    · refine .node (.container "<munder accentunder=\"true\">" rfl
        (hbody.seq (hmark.seq (.closing .munder level rfl))) ?_)
      simp [nodeText, textAt_eq, Element.textFrom, openTag, closeTag, Tag.name, Attribute.fixed,
        Attribute.text]
  | .fenced opening closing body => by
    have hbody := writes_node config (childLevel level) body
    have hopening := writes_fenceGlyph (childLevel level) opening
    have hclosing := writes_fenceGlyph (childLevel level) closing
    have hpadding := writes_fencePadding config (childLevel level)
    exact .node (.container "<mrow>" rfl (hopening.seq (hpadding.seq (hbody.seq (hpadding.seq
      (hclosing.seq (.closing .mrow level rfl)))))) (by simp [nodeText]))
  | .matrix cells opening closing => by
    have htable := fun level =>
      writes_table config level (fun l => writes_rows config l cells)
    have hopening := writes_fenceGlyph (childLevel level) opening
    have hclosing := writes_fenceGlyph (childLevel level) closing
    have hpadding := writes_fencePadding config (childLevel level)
    have hfenced := (Writes.push "<mrow>").seq (hopening.seq (hpadding.seq
      ((Writes.newLine (childLevel level)).seq ((htable (childLevel level)).seq
        (hpadding.seq (hclosing.seq (.line level "</mrow>")))))))
    refine .node ?_
    rw [presentation, matrixElement]
    -- without glyphs there is no row around the table, and it stands at the level of the node
    split
    · exact htable level
    · refine hfenced.congr ?_
      simp [fencedElement, Element.textFrom, textAt_eq, openTag, closeTag, Tag.name]
  | .styled variant body => by
    have hbody := writes_node config (childLevel level) body
    refine .node (((Writes.push _).seq ((Writes.push _).seq ((Writes.push _).seq (hbody.seq
      (.closing .mstyle level rfl))))).congr ?_)
    simp [nodeText, presentation, Element.textFrom, openTag, Tag.name, Attribute.fixed,
      Attribute.text]
  | .space width => .node (writes_space level width)
  | .phantom body => by
    have hbody := writes_node config (childLevel level) body
    exact .node (.container "<mphantom>" rfl (hbody.seq (.closing .mphantom level rfl))
      (by simp [nodeText]))
  | .lineBreak => .node (Writes.push _)

/-- `nodes` writes nodes in a row one after the other at the same level. -/
theorem writes_nodes (config : Config) (level : Nat) :
    ∀ layouts : List Layout,
      Writes (nodes config level layouts) (textsAt level (presentationAll config layouts))
  | [] => .nothing
  | layout :: layouts =>
    (writes_node config level layout).seq (writes_nodes config level layouts)

theorem writes_script (config : Config) (level : Nat) :
    ∀ script? : Option Layout,
      Writes (script config level script?) (textsAt level (presentationOption config script?))
  | none => .nothing
  | some layout => (writes_node config level layout).congr (by simp [presentationOption, nodeText])

/-- `cells` writes the cells of a row, each in an element of its own. -/
theorem writes_cells (config : Config) (level : Nat) :
    ∀ layouts : List Layout,
      Writes (cells config level layouts) (textsAt level (presentationCells config layouts))
  | [] => .nothing
  | layout :: layouts => by
    have hcell := writes_node config (childLevel level) layout
    have hcells := writes_cells config level layouts
    refine ((Writes.line level "<mtd>").seq (hcell.seq
      ((Writes.line level "</mtd>").seq hcells))).congr ?_
    simp [presentationCells, textAt_eq, Element.textFrom, openTag, closeTag, Tag.name, nodeText]

/-- `rows` writes the rows of a table, each in an element of its own. -/
theorem writes_rows (config : Config) (level : Nat) :
    ∀ layouts : List (List Layout),
      Writes (rows config level layouts) (textsAt level (presentationRows config layouts))
  | [] => .nothing
  | first :: others => by
    have hrow := writes_cells config (childLevel level) first
    have hrows := writes_rows config level others
    refine ((Writes.line level "<mtr>").seq (hrow.seq
      ((Writes.line level "</mtr>").seq hrows))).congr ?_
    simp [presentationRows, textAt_eq, Element.textFrom, openTag, closeTag, Tag.name]

end

/-! ## Documents

The root stands on no line of its own: the output starts with its first tag, and the line of its
last tag is not indented.  So the writer treats it apart, and `print_container` does the same for
the lines. -/

/-- The level at which the formula of a document is written. -/
def documentLevel (pretty : Bool) : Nat := if pretty then 1 else 0

/-- The children of a root, as `Element.print` lays them out: at the first level in indented output,
at level zero in flat output. -/
theorem writtenWith_linesAll (pretty : Bool) (es : List Element) :
    writtenWith (leadOf pretty) (Element.linesAll 1 es) = textsAt (documentLevel pretty) es := by
  cases pretty with
  | false => exact (flat_eq_writtenWith _).symm.trans (flat_linesAll_eq_textsAt 1 es)
  | true => exact indented_linesAll_eq_textsAt Nat.one_pos es

/-- What stands in the root: a formula alone, or with its source in an element around both. -/
def Element.withSource (formula : Element) (source? : Option (List Char)) : Element :=
  source?.elim formula (annotated formula)

/-- The root of a document holds one element, which is the formula or the wrapper of formula and
source. -/
theorem document_eq (config : Config) (layout : Layout) (source? : Option (List Char)) :
    document config layout source? = .container .math (rootAttributes config)
      [(presentation config layout).withSource source?] := by
  cases source? <;> rfl

/-- **`formula` writes what stands in the root at the first level**, or at level zero in flat
output.  With a source the formula stands one level deeper, beside it. -/
theorem writes_formula (config : Config) (layout : Layout) (source? : Option (List Char)) :
    Writes (formula config (documentLevel config.isPretty) layout source?)
      (textsAt (documentLevel config.isPretty)
        [(presentation config layout).withSource source?]) := by
  cases source? with
  -- without a source the formula stands alone
  | none => exact (writes_node config _ layout).congr (by simp [nodeText, Element.withSource])
  | some source =>
    -- the level of the formula is worked out from the configuration here, not from the level
    have hinner : (if config.isPretty then documentLevel config.isPretty + 1 else 0)
        = childLevel (documentLevel config.isPretty) := by
      cases config.isPretty <;> rfl
    unfold formula
    dsimp only
    rw [hinner]
    refine (((Writes.newLine _).seq ((Writes.push _).seq ((writes_node config _ layout).seq
      ((Writes.newLine _).seq ((Writes.push _).seq ((Writes.pushEscaped _).seq ((Writes.push _).seq
        ((Writes.newLine _).seq (Writes.push _)))))))))).congr ?_
    simp [Element.withSource, annotated, nodeText, textAt_eq, Element.textFrom, openTag, closeTag,
      Tag.name, Attribute.fixed, Attribute.text]

/-- The first tag of a document, with its attributes in the order in which `Writer.math` pushes
them. -/
theorem openTag_math (config : Config) :
    openTag .math (rootAttributes config) =
      "<math xmlns=\"http://www.w3.org/1998/Math/MathML\" class=\"mathtype\"".toList ++
        ((if config.displayMode then " display=\"block\"" else " display=\"inline\"").toList ++
          (" scriptminsize=\"".toList ++ (Decimal.markupText config.scriptMinSize ++
            ("px\" scriptsizemultiplier=\"".toList ++
              (Decimal.markupText config.scriptScale ++ "\">".toList))))) := by
  cases hdisplay : config.displayMode <;>
    simp [openTag, rootAttributes, hdisplay, Tag.name, Attribute.fixed, Attribute.text, lengthText]

/-- **A document is written as its lines are printed.** Between the two tags of the root stands what
`writes_formula` writes; the line break before the last tag is written in indented output only. -/
theorem writes_math (config : Config) (layout : Layout) (source? : Option (List Char)) :
    Writes (math config layout source?)
      ((document config layout (source?.filter fun _ => config.annotates)).print
        config.isPretty) := by
  refine ((Writes.push _).seq ((Writes.push _).seq ((Writes.push _).seq ((Writes.pushNumber _).seq
    ((Writes.push _).seq ((Writes.pushNumber _).seq ((Writes.push _).seq
      ((writes_formula config layout _).seq ((Writes.when config.isPretty (Writes.push _)).seq
        (Writes.push _)))))))))).congr ?_
  rw [document_eq, print_container, writtenWith_linesAll, openTag_math]
  cases config.isPretty <;> simp [leadOf, writtenWith, lineBreak, closeTag, Tag.name]

/-- What a writer writes onto an empty output is the text that it appends. -/
theorem written_of_writes {w : Writer} {text : List Char} (h : Writes w text) :
    written w = text := by
  rw [written, h []]
  rfl

/-- **The markup of a source is written as it is printed**, flat and indented, with its source and
without.  So whatever is shown of `convert` holds of the writer. -/
theorem convert_eq_written (config : Config) (source : List Char) :
    FormulaMarkup.convert config source = Writer.convert config source := by
  have hsource : (some source).filter (fun _ => config.annotates)
      = if config.annotates then some source else none := by
    cases config.annotates <;> rfl
  rw [Writer.convert, written_of_writes (writes_math config _ _), hsource]
  rfl

end FormulaMarkup.Markup
