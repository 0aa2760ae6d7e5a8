import FormulaMarkup.Convert

/-!
# FormulaMarkup — writing piece by piece

`Element.print` lays the lines of an element out in one go, each with the depth that `Element.lines`
has worked out for it.  A **`Writer`** has no lines.  It appends one piece after another to the
output, and the indentation level is handed by every construct to the parts that it writes: some of
them start with a line break of their own, others expect that their caller has written it, and level
zero, which stands for flat output, is handed on as zero.

A level that is handed on wrongly shows in the indentation, and a line break that is forgotten or
written twice shows there too; neither can happen in `Element.print`.  That the two come to the same
is the subject of `Proofs.Markup.Writing`.

* **`Writer.node`** — writes a node at an indentation level.
* **`Writer.fraction`**, **`Writer.table`** — write from the place where the output stands.
* **`Writer.fenceGlyph`**, **`Writer.fencePadding`** — write lines of their own.
* **`Writer.math`** — writes a whole document.
-/

namespace FormulaMarkup.Markup

/-- What appends to the output: a state that only grows, and no answer. -/
abbrev Writer := StateM (List Char) Unit

namespace Writer

/-! ## Pieces

A piece is a text that is written as it is, character data that has to be escaped, a number, or a
line break with its indentation. -/

/-- Appends a text, as it is.  Tags and attributes are pushed, and so are the names in them. -/
def push (piece : String) : Writer := modify (· ++ piece.toList)

/-- Appends character data, with the three reserved characters escaped by `Text.appendEscaped`. -/
def pushEscaped (text : List Char) : Writer := modify (Text.appendEscaped · text)

/-- Appends a number, in the way that markup has it (`Decimal.markupText`). -/
def pushNumber (value : Float) : Writer := modify (· ++ Decimal.markupText value)

/-- Writes only if the condition holds. -/
def when (condition : Bool) (w : Writer) : Writer := if condition then w else pure ()

/-- Four blanks for each level. -/
def indent : Nat → Writer
  | 0 => pure ()
  | level + 1 => do
    push "    "
    indent level

/-- The line break before a line at this `level`, and its indentation.  At level zero nothing is
written. -/
def newLine (level : Nat) : Writer := do
  when (0 < level) (push "\n")
  indent level

/-- A piece on a line of its own: a closing tag in most cases, or a tag that no node writes for
itself. -/
def line (level : Nat) (piece : String) : Writer := do
  newLine level
  push piece

/-- The level of the parts of what stands at this level.  Level zero has no levels below it, so that
flat output stays flat all the way down. -/
def childLevel (level : Nat) : Nat := if 0 < level then level + 1 else 0

/-! ## Constructs

What an element consists of apart from the nodes in it.  The parts that are nodes are handed over as
writers that wait for their level. -/

section Constructs

variable (config : Config)

/-- The space on both sides of an operator, as attributes. -/
def spacing : Writer := do
  push " lspace=\""
  pushNumber config.operatorSpacing
  push "em\" rspace=\""
  pushNumber config.operatorSpacing
  push "em\""

/-- An operator on the line that has been started.  The `spacing` is asked for here, as it is an
attribute. -/
def operator (text : String) (large : Bool) : Writer := do
  push "<mo"
  when large (push " largeop=\"true\" movablelimits=\"true\"")
  when (config.useOperatorSpacing && (large || text.toList.any (spacedGlyphs.contains ·)))
    (spacing config)
  push ">"
  pushEscaped text.toList
  push "</mo>"

/-- An alignment as an attribute of the given name, if there is one. -/
def alignment (name : String) : Option Alignment → Writer
  | none => pure ()
  | some a => do
    push name
    push a.name
    push "\""

/-- A fraction, starting where the output stands: its line break has been written by `node`, or by
the `node` around it if the fraction has a size of its own. -/
def fraction (level : Nat) (numerator denominator : Nat → Writer) : Writer := do
  push "<mfrac linethickness=\""
  pushNumber config.fracLineThickness
  push "em\""
  alignment " numalign=\"" config.fracNumAlign
  alignment " denomalign=\"" config.fracDenomAlign
  push ">"
  numerator (childLevel level)
  denominator (childLevel level)
  line level "</mfrac>"

/-- The glyph of a fence on a line of its own, or nothing if it is absent.  It comes with its line
break, unlike a fraction or a table. -/
def fenceGlyph (level : Nat) (glyph : String) : Writer :=
  if glyph.isEmpty then pure ()
  else do
    line level "<mo fence=\"true\" stretchy=\"true\" lspace=\"0em\" rspace=\"0em\">"
    pushEscaped glyph.toList
    push "</mo>"

/-- A space of the given width. -/
def space (width : Float) : Writer := do
  push "<mspace width=\""
  pushNumber width
  push "em\"/>"

/-- The padding of a fence on a line of its own, or nothing if there is none. -/
def fencePadding (level : Nat) : Writer :=
  if config.fencePadding == 0.0 || config.fencePadding.isNaN then pure ()
  else do
    newLine level
    space config.fencePadding

/-- A table, starting where the output stands, for the same reason as a `fraction`. -/
def table (level : Nat) (rows : Nat → Writer) : Writer := do
  push "<mtable rowspacing=\""
  pushNumber config.matrixRowGap
  push "em\" columnspacing=\""
  pushNumber config.matrixColGap
  push "em\">"
  rows (childLevel level)
  line level "</mtable>"

/-! ## Nodes

A node begins with the line break of its level.  After that each kind of node hands the level of its
children to whatever it consists of, and comes back to its own level for its closing tag. -/

mutual

/-- Writes a node at an indentation level.  Whatever the kind of the node, its line break comes
first, and the nodes in it write their own. -/
def node (level : Nat) (layout : Layout) : Writer := do
  newLine level
  match layout with
  | .row children => do
    push "<mrow>"
    nodes (childLevel level) children
    line level "</mrow>"
  | .identifier text upright => do
    push (if upright then "<mi mathvariant=\"normal\">" else "<mi>")
    pushEscaped text.toList
    push "</mi>"
  | .number text => do
    push "<mn>"
    pushEscaped text.toList
    push "</mn>"
  | .operator text large => operator config text large
  | .text text .words => do
    push "<mtext>"
    pushEscaped text.toList
    push "</mtext>"
  | .text text .operatorName => do
    push "<mi mathvariant=\"normal\">"
    pushEscaped text.toList
    push "</mi>"
  | .fraction numerator denominator style =>
    match style.displayed with
    | some displayed => do
      push "<mstyle displaystyle=\""
      push (toString displayed)
      push "\">"
      newLine (childLevel level)
      fraction config (childLevel level) (node · numerator) (node · denominator)
      line level "</mstyle>"
    | none => fraction config level (node · numerator) (node · denominator)
  | .radical body (some index) => do
    push "<mroot>"
    node (childLevel level) body
    node (childLevel level) index
    line level "</mroot>"
  | .radical body none => do
    push "<msqrt>"
    node (childLevel level) body
    line level "</msqrt>"
  | .scripted base sub sup placement => do
    let tag := (scriptTag placement sub.isSome sup.isSome).name
    push ("<" ++ tag ++ ">")
    node (childLevel level) base
    script (childLevel level) sub
    script (childLevel level) sup
    line level ("</" ++ tag ++ ">")
  | .accent body glyph position => do
    push (match position with
      | .over => "<mover accent=\"true\">"
      | .under => "<munder accentunder=\"true\">")
    node (childLevel level) body
    line (childLevel level) "<mo accent=\"true\">"
    pushEscaped glyph.toList
    push "</mo>"
    line level (match position with
      | .over => "</mover>"
      | .under => "</munder>")
  | .fenced opening closing body => do
    push "<mrow>"
    fenceGlyph (childLevel level) opening
    fencePadding config (childLevel level)
    node (childLevel level) body
    fencePadding config (childLevel level)
    fenceGlyph (childLevel level) closing
    line level "</mrow>"
  | .matrix cells opening closing =>
    if opening.isEmpty && closing.isEmpty then table config level (rows · cells)
    else do
      push "<mrow>"
      fenceGlyph (childLevel level) opening
      fencePadding config (childLevel level)
      newLine (childLevel level)
      table config (childLevel level) (rows · cells)
      fencePadding config (childLevel level)
      fenceGlyph (childLevel level) closing
      line level "</mrow>"
  | .styled variant body => do
    push "<mstyle mathvariant=\""
    push variant.name
    push "\">"
    node (childLevel level) body
    line level "</mstyle>"
  | .space width => space width
  | .phantom body => do
    push "<mphantom>"
    node (childLevel level) body
    line level "</mphantom>"
  | .lineBreak => push "<mspace linebreak=\"newline\"/>"

/-- Writes nodes one after the other, all at one level. -/
def nodes (level : Nat) : List Layout → Writer
  | [] => pure ()
  | first :: others => do
    node level first
    nodes level others

/-- Writes a script, if there is one. -/
def script (level : Nat) : Option Layout → Writer
  | none => pure ()
  | some layout => node level layout

/-- Writes the rows of a table, each on lines of its own. -/
def rows (level : Nat) : List (List Layout) → Writer
  | [] => pure ()
  | first :: others => do
    line level "<mtr>"
    cells (childLevel level) first
    line level "</mtr>"
    rows level others

/-- Writes the cells of a row, each around its node. -/
def cells (level : Nat) : List Layout → Writer
  | [] => pure ()
  | first :: others => do
    line level "<mtd>"
    node (childLevel level) first
    line level "</mtd>"
    cells level others

end

/-! ## Documents

The document is the outermost construct.  Its own tag starts at the beginning of the output, and its
closing tag stands on a line without indentation. -/

/-- A formula, together with its source if there is one.  In indented output the formula moves one
level down for the wrapper; in flat output everything stays at level zero. -/
def formula (level : Nat) (layout : Layout) : Option (List Char) → Writer
  | none => node config level layout
  | some source => do
    let inner := if config.isPretty then level + 1 else 0
    newLine level
    push "<semantics>"
    node config inner layout
    newLine inner
    push "<annotation encoding=\"application/x-tex\">"
    pushEscaped source
    push "</annotation>"
    newLine level
    push "</semantics>"

/-- Writes the document of a formula.  The source goes with it if the configuration says so. -/
def math (layout : Layout) (source : Option (List Char)) : Writer := do
  push "<math xmlns=\"http://www.w3.org/1998/Math/MathML\" class=\"mathtype\""
  push (if config.displayMode then " display=\"block\"" else " display=\"inline\"")
  push " scriptminsize=\""
  pushNumber config.scriptMinSize
  push "px\" scriptsizemultiplier=\""
  pushNumber config.scriptScale
  push "\">"
  formula config (if config.isPretty then 1 else 0) layout (source.filter fun _ => config.annotates)
  when config.isPretty (push "\n")
  push "</math>"

end Constructs

/-- What a writer writes onto an empty output. -/
def written (w : Writer) : List Char := (w []).2

/-- The markup of a source, written piece by piece onto an empty output.  What is parsed is written
by `math`. -/
def convert (config : Config) (source : List Char) : List Char :=
  written (math config (parse config source).value (some source))

end Writer

end FormulaMarkup.Markup
