/-!
# FormulaMarkup — formula trees

A formula is a tree of rows, tokens, fractions, radicals, scripts, fences and tables.  The same
tree is used at two stages, which differ in what a space and a pair of scripts say about themselves:

* **`Formula`** — what a source says: a space is known by its name, and where the scripts of a base
  go is not yet decided.
* **`Layout`** — what is written: a space has a width in `em` and the scripts have their place.

Functions that look at neither are defined once, on **`Node`**, and **`Node.relabel`** exchanges
the two labels while it keeps everything else.
-/

namespace FormulaMarkup

/-- The letter form of a styled group. -/
inductive MathVariant where
  | normal | bold | italic | doubleStruck | monospace | script | fraktur
  deriving DecidableEq, Repr

/-- The keyword of a style. -/
def MathVariant.name : MathVariant → String
  | .normal => "normal"
  | .bold => "bold"
  | .italic => "italic"
  | .doubleStruck => "double-struck"
  | .monospace => "monospace"
  | .script => "script"
  | .fraktur => "fraktur"

/-- The size in which a fraction is set: that of its surroundings, or one of its own. -/
inductive FractionStyle where
  | inherit | display | text
  deriving DecidableEq, Repr

/-- Whether the style asks for display size; nothing if it leaves the size alone. -/
def FractionStyle.displayed : FractionStyle → Option Bool
  | .inherit => none
  | .display => some true
  | .text => some false

/-- On which side of its body an accent stands. -/
inductive AccentPosition where
  | over | under
  deriving DecidableEq, Repr

/-- Where the scripts of a base stand: at its side, or under and over it. -/
inductive ScriptPlacement where
  | beside | underOver
  deriving DecidableEq, Repr

/-- What a verbatim text is: words between the symbols, or the name of an operator. -/
inductive TextKind where
  | words | operatorName
  deriving DecidableEq, Repr

/-- The spaces that a formula can ask for by name. -/
inductive SpaceName where
  | thin | medium | thick | negativeThin | quad | qquad
  deriving DecidableEq, Repr

/-- A formula tree.  `Width` is what is known of a space and `Placement` what is known of the place
of scripts. -/
inductive Node (Width Placement : Type) where
  /-- Several parts side by side. -/
  | row (children : List (Node Width Placement))
  /-- A letter run, a Greek letter, a function name or a name that is not known. -/
  | identifier (text : String) (upright : Bool)
  | number (text : String)
  | operator (text : String) (large : Bool)
  /-- A text that is taken over as it is. -/
  | text (text : String) (kind : TextKind)
  | fraction (numerator denominator : Node Width Placement) (style : FractionStyle)
  | radical (body : Node Width Placement) (index : Option (Node Width Placement))
  | scripted (base : Node Width Placement) (sub sup : Option (Node Width Placement))
      (placement : Placement)
  | accent (body : Node Width Placement) (glyph : String) (position : AccentPosition)
  /-- A body between two glyphs, each of which may be absent, that is, empty. -/
  | fenced (opening closing : String) (body : Node Width Placement)
  /-- A table between two glyphs, each of which may be absent.  Its rows may differ in length. -/
  | matrix (rows : List (List (Node Width Placement))) (opening closing : String)
  | styled (variant : MathVariant) (body : Node Width Placement)
  | space (width : Width)
  /-- A body that takes up its room but is not shown. -/
  | phantom (body : Node Width Placement)
  | lineBreak

/-- A formula as a source gives it. -/
abbrev Formula := Node SpaceName Unit

/-- A formula as it is written, with widths in `em`. -/
abbrev Layout := Node Float ScriptPlacement

namespace Node

variable {W P W' P' : Type}

/-- The row without children stands for whatever is missing. -/
abbrev emptyRow : Node W P := .row []

/-- Whether the node is a large operator, that is, one that takes its scripts under and over it. -/
def isLargeOperator : Node W P → Bool
  | .operator _ large => large
  | _ => false

/-- One part stands for itself, and any other number of parts for their row.  In particular no parts
make `emptyRow`. -/
def ofItems : List (Node W P) → Node W P
  | [item] => item
  | items => .row items

mutual

/-- Exchanges the labels of spaces and scripts.  The new placement may depend on whether the base
is a large operator. -/
def relabel (width : W → W') (placement : Bool → P → P') : Node W P → Node W' P'
  | .row children => .row (relabelAll width placement children)
  | .identifier t upright => .identifier t upright
  | .number t => .number t
  | .operator t large => .operator t large
  | .text t kind => .text t kind
  | .fraction numerator denominator style =>
    .fraction (relabel width placement numerator) (relabel width placement denominator) style
  | .radical body index =>
    .radical (relabel width placement body) (relabelOption width placement index)
  | .scripted base sub sup place =>
    .scripted (relabel width placement base) (relabelOption width placement sub)
      (relabelOption width placement sup) (placement base.isLargeOperator place)
  | .accent body glyph position => .accent (relabel width placement body) glyph position
  | .fenced opening closing body => .fenced opening closing (relabel width placement body)
  | .matrix rows opening closing => .matrix (relabelRows width placement rows) opening closing
  | .styled variant body => .styled variant (relabel width placement body)
  | .space w => .space (width w)
  | .phantom body => .phantom (relabel width placement body)
  | .lineBreak => .lineBreak

/-- The same for nodes in a row. -/
def relabelAll (width : W → W') (placement : Bool → P → P') :
    List (Node W P) → List (Node W' P')
  | [] => []
  | node :: nodes => relabel width placement node :: relabelAll width placement nodes

/-- The same for the rows of a table. -/
def relabelRows (width : W → W') (placement : Bool → P → P') :
    List (List (Node W P)) → List (List (Node W' P'))
  | [] => []
  | cells :: rows => relabelAll width placement cells :: relabelRows width placement rows

/-- The same for a script or an index. -/
def relabelOption (width : W → W') (placement : Bool → P → P') :
    Option (Node W P) → Option (Node W' P')
  | none => none
  | some node => some (relabel width placement node)

end

end Node

end FormulaMarkup
