import FormulaMarkup.Text.Escape

/-!
# FormulaMarkup — elements and their text

The output is a tree of elements.  An element takes up one or more **`Line`**s, each of which begins
with a tag and knows how deep it stands in the tree; the two ways of printing differ only in what
they write between the lines.

* **`Element.lines`** — the lines of an element.
* **`flat`** — the lines one after the other.
* **`indented`** — each line on a line of its own, four blanks further to the right per level.

Character data is escaped here and nowhere else.
-/

namespace FormulaMarkup.Markup

/-- The elements of presentation markup that occur, with the root and the wrapper that holds a
formula together with its source. -/
inductive Tag where
  | math | semantics | sourceText
  | mrow | mi | mn | mo | mtext | mspace
  | mfrac | msqrt | mroot
  | msub | msup | msubsup | munder | mover | munderover
  | mtable | mtr | mtd
  | mstyle | mphantom
  deriving DecidableEq, Repr

/-- The name of an element as it is written. -/
def Tag.name : Tag → String
  | .math => "math"
  | .semantics => "semantics"
  | .sourceText => "annotation"
  | .mrow => "mrow"
  | .mi => "mi"
  | .mn => "mn"
  | .mo => "mo"
  | .mtext => "mtext"
  | .mspace => "mspace"
  | .mfrac => "mfrac"
  | .msqrt => "msqrt"
  | .mroot => "mroot"
  | .msub => "msub"
  | .msup => "msup"
  | .msubsup => "msubsup"
  | .munder => "munder"
  | .mover => "mover"
  | .munderover => "munderover"
  | .mtable => "mtable"
  | .mtr => "mtr"
  | .mtd => "mtd"
  | .mstyle => "mstyle"
  | .mphantom => "mphantom"

/-- An attribute and its value, which is written as it is. -/
structure Attribute where
  name : String
  value : List Char

/-- An attribute whose value does not depend on the formula or the configuration. -/
def Attribute.fixed (name value : String) : Attribute := ⟨name, value.toList⟩

/-- A blank, the name, and the value between quotes. -/
def Attribute.text (a : Attribute) : List Char :=
  ' ' :: a.name.toList ++ '=' :: '"' :: a.value ++ ['"']

/-- An element: one that holds character data, one that holds nothing and is closed at once, or
one that holds other elements. -/
inductive Element where
  | token (tag : Tag) (attributes : List Attribute) (text : List Char)
  | void (tag : Tag) (attributes : List Attribute)
  | container (tag : Tag) (attributes : List Attribute) (children : List Element)

/-- The tag that opens an element. -/
def openTag (tag : Tag) (attributes : List Attribute) : List Char :=
  '<' :: tag.name.toList ++ attributes.flatMap Attribute.text ++ ['>']

/-- The tag that closes an element. -/
def closeTag (tag : Tag) : List Char :=
  '<' :: '/' :: tag.name.toList ++ ['>']

/-- The tag of an element that holds nothing. -/
def voidTag (tag : Tag) (attributes : List Attribute) : List Char :=
  '<' :: tag.name.toList ++ attributes.flatMap Attribute.text ++ ['/', '>']

/-- A piece of output that is not broken, with the number of elements it stands in.  `indented`
turns this number into blanks. -/
structure Line where
  depth : Nat
  text : List Char

namespace Element

mutual

/-- The lines of an element that stands in `depth` others.  An element that holds others opens
and closes on lines of its own. -/
def lines (depth : Nat) : Element → List Line
  | .token tag attributes t =>
    [⟨depth, Text.appendEscaped (openTag tag attributes) t ++ closeTag tag⟩]
  | .void tag attributes => [⟨depth, voidTag tag attributes⟩]
  | .container tag attributes children =>
    ⟨depth, openTag tag attributes⟩ ::
      linesAll (depth + 1) children ++ [⟨depth, closeTag tag⟩]

/-- The lines of elements that stand side by side. -/
def linesAll (depth : Nat) : List Element → List Line
  | [] => []
  | element :: elements => lines depth element ++ linesAll depth elements

end

end Element

/-- The line break and the indentation before a line that stands in `depth` elements. -/
def lineBreak (depth : Nat) : List Char :=
  '\n' :: List.replicate (4 * depth) ' '

/-- The lines one after the other, with nothing between them. -/
def flat (ls : List Line) : List Char :=
  ls.flatMap Line.text

/-- Each line after a line break and its indentation. -/
def indented (ls : List Line) : List Char :=
  ls.flatMap fun line => lineBreak line.depth ++ line.text

/-- What an indentation level adds before a line of its own; level zero stands for flat output and
adds nothing. -/
def indentation (level : Nat) : List Char :=
  if level = 0 then [] else lineBreak level

/-- The element at an indentation level; level zero stands for `flat` output. -/
def Element.textAt (level : Nat) (e : Element) : List Char :=
  if level = 0 then flat (e.lines 0) else indented (e.lines level)

/-- The element as a text of its own: the first line starts the text, so there is no line break
before it. -/
def Element.print (pretty : Bool) (e : Element) : List Char :=
  if pretty then
    match e.lines 0 with
    | [] => []
    | first :: others => first.text ++ indented others
  else
    flat (e.lines 0)

end FormulaMarkup.Markup
