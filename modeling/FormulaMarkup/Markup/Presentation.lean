import FormulaMarkup.Config.Basic
import FormulaMarkup.Decimal.Text
import FormulaMarkup.Markup.Element
import FormulaMarkup.Node

/-!
# FormulaMarkup — presentation of a formula tree

Every node of a laid-out formula becomes exactly one element, whose children come from the
children of the node.  The configuration decides about attributes, and about two things more: the
padding inside fences, and nothing else.

* **`presentation`** — the element of a node.
* **`document`** — the whole output for a formula, with or without its source.
-/

namespace FormulaMarkup.Markup

open Element

/-- A length: the number followed by its unit. -/
def lengthText (value : Float) (unit : String) : List Char :=
  Decimal.markupText value ++ unit.toList

/-- An attribute whose value is a length in `em`. -/
def emAttribute (name : String) (value : Float) : Attribute :=
  ⟨name, lengthText value "em"⟩

/-- The glyphs that take spacing when operators are spaced. -/
def spacedGlyphs : List Char :=
  ['+', '-', '*', '/', '=', '<', '>', '∑', '∏', '∫']

/-- The space on both sides of an operator, if the configuration asks for it.  It goes to large
operators and to those with one of the `spacedGlyphs`. -/
def spacingAttributes (config : Config) (text : String) (large : Bool) : List Attribute :=
  if config.useOperatorSpacing && (large || text.toList.any (spacedGlyphs.contains ·)) then
    [emAttribute "lspace" config.operatorSpacing, emAttribute "rspace" config.operatorSpacing]
  else []

/-- An operator.  A large one says so, and that its limits may move to its side.  Its glyph decides
with the configuration whether it is spaced (`spacedGlyphs`). -/
def operatorElement (config : Config) (text : String) (large : Bool) : Element :=
  .token .mo
    ((if large then [.fixed "largeop" "true", .fixed "movablelimits" "true"] else [])
      ++ spacingAttributes config text large)
    text.toList

/-- An identifier whose letters stand upright if so asked. -/
def identifierElement (text : String) (upright : Bool) : Element :=
  .token .mi (if upright then [.fixed "mathvariant" "normal"] else []) text.toList

/-- A verbatim text.  The name of an operator is an upright identifier. -/
def textElement (text : String) : TextKind → Element
  | .words => .token .mtext [] text.toList
  | .operatorName => identifierElement text true

/-- An alignment as an attribute of the given name, nothing if there is none. -/
def alignmentAttributes (name : String) : Option Alignment → List Attribute
  | none => []
  | some a => [.fixed name a.name]

/-- A fraction, in an element that sets its size if it has one of its own. -/
def fractionElement (config : Config) (numerator denominator : Element)
    (style : FractionStyle) : Element :=
  let fraction := Element.container .mfrac
    (emAttribute "linethickness" config.fracLineThickness ::
      (alignmentAttributes "numalign" config.fracNumAlign
        ++ alignmentAttributes "denomalign" config.fracDenomAlign))
    [numerator, denominator]
  match style.displayed with
  | none => fraction
  | some true => .container .mstyle [.fixed "displaystyle" "true"] [fraction]
  | some false => .container .mstyle [.fixed "displaystyle" "false"] [fraction]

/-- The element that holds a base and its scripts, by their `ScriptPlacement` and by which of them
are there. -/
def scriptTag (placement : ScriptPlacement) (hasSub hasSup : Bool) : Tag :=
  match placement, hasSub, hasSup with
  | .beside, true, true => .msubsup
  | .beside, true, false => .msub
  | .beside, false, true => .msup
  | .underOver, true, true => .munderover
  | .underOver, true, false => .munder
  | .underOver, false, true => .mover
  | _, false, false => .mrow

/-- A body with an accent over or under it. -/
def accentElement (body : Element) (glyph : String) (position : AccentPosition) : Element :=
  let mark := Element.token .mo [.fixed "accent" "true"] glyph.toList
  match position with
  | .over => .container .mover [.fixed "accent" "true"] [body, mark]
  | .under => .container .munder [.fixed "accentunder" "true"] [body, mark]

/-- The glyph of a fence, or nothing if it is absent. -/
def fenceGlyph (glyph : String) : List Element :=
  if glyph.isEmpty then []
  else
    [.token .mo [.fixed "fence" "true", .fixed "stretchy" "true", .fixed "lspace" "0em",
      .fixed "rspace" "0em"] glyph.toList]

/-- A space of the given width. -/
def spaceElement (width : Float) : Element :=
  .void .mspace [emAttribute "width" width]

/-- The padding between a fence and its body. -/
def fencePadding (config : Config) : List Element :=
  if config.hasFencePadding then [spaceElement config.fencePadding] else []

/-- A body between two fences, with padding on both sides even where a glyph is absent. -/
def fencedElement (config : Config) (opening closing : String) (body : Element) : Element :=
  .container .mrow []
    (fenceGlyph opening ++ fencePadding config ++ [body] ++ fencePadding config
      ++ fenceGlyph closing)

/-- A table of the given rows, between fences if it has any. -/
def matrixElement (config : Config) (rows : List Element) (opening closing : String) :
    Element :=
  let table := Element.container .mtable
    [emAttribute "rowspacing" config.matrixRowGap,
      emAttribute "columnspacing" config.matrixColGap] rows
  if opening.isEmpty && closing.isEmpty then table
  else fencedElement config opening closing table

mutual

/-- The element of a node. -/
def presentation (config : Config) : Layout → Element
  | .row children => .container .mrow [] (presentationAll config children)
  | .identifier t upright => identifierElement t upright
  | .number t => .token .mn [] t.toList
  | .operator t large => operatorElement config t large
  | .text t kind => textElement t kind
  | .fraction numerator denominator style =>
    fractionElement config (presentation config numerator) (presentation config denominator)
      style
  | .radical body none => .container .msqrt [] [presentation config body]
  | .radical body (some index) =>
    .container .mroot [] [presentation config body, presentation config index]
  | .scripted base sub sup placement =>
    .container (scriptTag placement sub.isSome sup.isSome) []
      (presentation config base :: presentationOption config sub
        ++ presentationOption config sup)
  | .accent body glyph position => accentElement (presentation config body) glyph position
  | .fenced opening closing body =>
    fencedElement config opening closing (presentation config body)
  | .matrix rows opening closing =>
    matrixElement config (presentationRows config rows) opening closing
  | .styled variant body =>
    .container .mstyle [.fixed "mathvariant" variant.name] [presentation config body]
  | .space width => spaceElement width
  | .phantom body => .container .mphantom [] [presentation config body]
  | .lineBreak => .void .mspace [.fixed "linebreak" "newline"]

/-- The elements of nodes in a row. -/
def presentationAll (config : Config) : List Layout → List Element
  | [] => []
  | node :: nodes => presentation config node :: presentationAll config nodes

/-- The cells of a row, each around the element of its node. -/
def presentationCells (config : Config) : List Layout → List Element
  | [] => []
  | cell :: cells =>
    .container .mtd [] [presentation config cell] :: presentationCells config cells

/-- The rows of a table, each around its cells. -/
def presentationRows (config : Config) : List (List Layout) → List Element
  | [] => []
  | cells :: rows =>
    .container .mtr [] (presentationCells config cells) :: presentationRows config rows

/-- The element of a script, if there is one. -/
def presentationOption (config : Config) : Option Layout → List Element
  | none => []
  | some node => [presentation config node]

end

/-- The text of a node at an indentation level; level zero stands for flat output.  It is the text
of the element that `presentation` gives. -/
def nodeText (config : Config) (level : Nat) (node : Layout) : List Char :=
  (presentation config node).textAt level

/-! ## Whole documents

The root says which kind of markup follows and how far scripts may shrink.  It holds the element of
the formula, or the formula and its source with a wrapper around both. -/

/-- The attributes of the root, of which three depend on the configuration. -/
def rootAttributes (config : Config) : List Attribute :=
  [.fixed "xmlns" "http://www.w3.org/1998/Math/MathML",
    .fixed "class" "mathtype",
    .fixed "display" (if config.displayMode then "block" else "inline"),
    ⟨"scriptminsize", lengthText config.scriptMinSize "px"⟩,
    ⟨"scriptsizemultiplier", Decimal.markupText config.scriptScale⟩]

/-- A formula together with its source. -/
def annotated (formula : Element) (source : List Char) : Element :=
  .container .semantics []
    [formula, .token .sourceText [.fixed "encoding" "application/x-tex"] source]

/-- The root element of a formula.  The source is there if it is to go with the formula. -/
def document (config : Config) (node : Layout) (source : Option (List Char)) : Element :=
  let formula := presentation config node
  .container .math (rootAttributes config)
    [match source with
      | none => formula
      | some s => annotated formula s]

/-- The whole output for a laid-out formula.  It has no source that could go with it. -/
def render (config : Config) (node : Layout) : List Char :=
  (document config node none).print config.isPretty

/-- The whole output for a laid-out formula and the source it comes from, which goes with it if the
configuration `annotates`. -/
def renderWithSource (config : Config) (node : Layout) (source : List Char) : List Char :=
  (document config node (if config.annotates then some source else none)).print config.isPretty

end FormulaMarkup.Markup
