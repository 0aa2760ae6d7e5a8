import FormulaMarkup.Formula.Diagnostic
import FormulaMarkup.Formula.Scripts
import FormulaMarkup.Proofs.Formula.Names
import FormulaMarkup.Proofs.Source.Tokens
import FormulaMarkup.Source.Environment

/-!
# FormulaMarkup — the notation

The notation as a language of its own, apart from any reader.  An **`Expr`** is a formula in one of
the ways in which it can be written: it knows its blanks, the order of its scripts and whether an
argument stands in braces.

* **`Atom`**, **`Scripts`**, **`Expr`**, **`Cells`** — the constructs.
* **`Expr.source`** — the text of an expression.
* **`Expr.tree`** — the formula tree that it stands for.
* **`Expr.log`** — the names in it that nobody knows.
* **`Expr.depth`** — how many atoms are open inside one another.
* **`Expr.separated`** — whether tokens that would run together are kept apart.

Tokens and constructs carry the proof that they are well formed, so that every value of these types
is a formula.  What they do not carry is whether neighbours run together, since this is a matter of
two constructs at a time; `separated` decides it, and can be computed.
-/

namespace FormulaMarkup.Notation

open Source Text
open Formula (Diagnostic ScriptKind isLetterName isUnknownName)

/-! ## Tokens

A token has its characters and the proof that they are of the right kind.  The characters with a
meaning of their own are excluded from those that are operators by themselves. -/

/-- Any number of blanks. -/
structure Blanks where
  chars : List Char
  blank : ∀ c ∈ chars, isBlank c = true

/-- A run of letters, which is not empty. -/
structure Letters where
  chars : List Char
  nonempty : chars ≠ []
  alpha : ∀ c ∈ chars, c.isAlpha = true

/-- A run of digits, and perhaps a period with another run, which may be empty. -/
structure Numeral where
  whole : List Char
  decimals : Option (List Char)
  nonempty : whole ≠ []
  digits : ∀ c ∈ whole, c.isDigit = true
  decimals_digits : ∀ c ∈ decimals.getD [], c.isDigit = true

/-- The text of a number. -/
def Numeral.chars (n : Numeral) : List Char :=
  n.whole ++ (n.decimals.map ('.' :: ·)).getD []

/-- The characters with a meaning of their own, which are no `Ordinary` ones. -/
def reserved : List Char := ['\\', '{', '}', '^', '_', '&', '[', ']']

/-- A character that is an operator by itself. -/
structure Ordinary where
  char : Char
  blank : isBlank char = false
  alpha : char.isAlpha = false
  digit : char.isDigit = false
  free : char ∉ reserved

/-- A text in braces that is taken as it is. -/
structure Group where
  text : List Char
  balanced : Balanced text

/-- The text of a group, with its braces. -/
def Group.source (g : Group) : List Char := '{' :: (g.text ++ ['}'])

/-- A backslash and a name. -/
def command (name : String) : List Char := '\\' :: name.toList

/-! ## Commands

A name goes with the proof that it is found in the table for which the constructor stands, so that
what it means is data of the token and not a matter of looking it up again. -/

/-- The name of the command for a space. -/
def spaceCommand : SpaceName → String
  | .thin => ","
  | .medium => ":"
  | .thick => ";"
  | .negativeThin => "!"
  | .quad => "quad"
  | .qquad => "qquad"

/-- The name of the command for a fraction. -/
def fractionCommand : FractionStyle → String
  | .inherit => "frac"
  | .display => "dfrac"
  | .text => "tfrac"

/-- The name of the command before a text that is taken as it is. -/
def verbatimCommand : TextKind → String
  | .words => "text"
  | .operatorName => "operatorname"

/-- A command that takes no argument. -/
inductive Named where
  | symbol (name : String) (symbol : Symbol) (known : Symbol.ofName? name = some symbol)
  | escaped (name : String) (known : name ∈ escapedLiterals)
  | space (name : SpaceName)
  /-- A name that is in no table stands for itself. -/
  | unknown (name : String) (letters : isLetterName name = true)
      (unknown : isUnknownName name = true)

namespace Named

/-- The name of a command without an argument. -/
def name : Named → String
  | .symbol name _ _ => name
  | .escaped name _ => name
  | .space name => spaceCommand name
  | .unknown name _ _ => name

/-- What a command stands for.  A function is shown upright under its own name. -/
def node {W P : Type} (width : SpaceName → W) : Named → Node W P
  | .symbol _ (.letter glyph) _ => .identifier glyph false
  | .symbol _ (.operator glyph) _ => .operator glyph false
  | .symbol _ (.largeOperator glyph) _ => .operator glyph true
  | .symbol name .function _ => .identifier name true
  | .escaped name _ => .operator name false
  | .space name => .space (width name)
  | .unknown name _ _ => .identifier name false

/-- A name that nobody knows is reported. -/
def log : Named → List Diagnostic
  | .unknown name _ _ => [.unknownCommand name.toList]
  | _ => []

end Named

/-- A command that changes the argument after it. -/
inductive Modifier where
  | accent (name glyph : String) (position : AccentPosition)
      (known : accent? name = some (glyph, position))
  | styled (name : String) (variant : MathVariant) (known : variant? name = some variant)
  | phantom

namespace Modifier

/-- The name of a command that changes its argument. -/
def name : Modifier → String
  | .accent name _ _ _ => name
  | .styled name _ _ => name
  | .phantom => "phantom"

/-- What becomes of the argument. -/
def apply {W P : Type} (body : Node W P) : Modifier → Node W P
  | .accent _ glyph position _ => .accent body glyph position
  | .styled _ variant _ => .styled variant body
  | .phantom => .phantom body

end Modifier

/-- A fence: a character or a command. -/
inductive Delimiter where
  | literal (char : Char) (blank : isBlank char = false) (plain : char ≠ '\\')
  | named (name glyph : String) (known : namedDelimiter? name = some glyph)

namespace Delimiter

/-- The text of a fence. -/
def source : Delimiter → List Char
  | .literal char _ _ => [char]
  | .named name _ _ => command name

/-- The glyph of a fence.  A period stands for no fence. -/
def glyph : Delimiter → String
  | .literal char _ _ => if char = '.' then "" else String.singleton char
  | .named _ glyph _ => glyph

end Delimiter

/-- The column specification of an environment, which only some environments have. -/
inductive ColumnSpec (environment : Environment) where
  | none (h : environment.hasColumnSpec = false)
  | group (h : environment.hasColumnSpec = true) (gap : Blanks) (text : Group)

/-- The text of a column specification, with the blanks before it. -/
def ColumnSpec.source {environment : Environment} : ColumnSpec environment → List Char
  | .none _ => []
  | .group _ gap text => gap.chars ++ text.source

/-- The name of an environment that is not tabular. -/
structure PlainEnvironment where
  name : Group
  nonempty : name.text ≠ []
  notTabular : Environment.ofName? (String.ofList name.text) = none

/-- The name of a tabular environment contains no braces. -/
def tableName (environment : Environment) : Group where
  text := environment.name.toList
  balanced := by cases environment <;> decide

/-! ## Constructs

Five sorts in one mutual definition.  Blanks stand where they can stand without a meaning: before an
atom that is an argument or an item, before a marker, a group or a fence, and at the end. -/

mutual

/-- A part of a formula that stands for itself.  The five types that follow are the abstract syntax
of the notation: an `Expr` consists of items, these of an `Atom` with `Scripts`, and a table of
`Cells`. -/
inductive Atom where
  | numeral (numeral : Numeral)
  | letters (letters : Letters)
  | ordinary (ordinary : Ordinary)
  | named (named : Named)
  | group (body : Expr)
  | fraction (style : FractionStyle) (numerator denominator : Argument)
  | squareRoot (body : Argument)
  /-- A radical with its index in brackets. -/
  | root (gap : Blanks) (index : Expr) (body : Argument)
  | modified (modifier : Modifier) (body : Argument)
  | verbatim (kind : TextKind) (gap : Blanks) (text : Group)
  | fenced (gap : Blanks) (opening : Delimiter) (body : Expr) (gap' : Blanks)
      (closing : Delimiter)
  | table (gap : Blanks) (environment : Environment) (spec : ColumnSpec environment)
      (cells : Cells) (gap' : Blanks)
  | environment (gap : Blanks) (environment : PlainEnvironment) (body : Expr) (gap' : Blanks)

/-- An atom with the blanks before it. -/
inductive Argument where
  | mk (gap : Blanks) (atom : Atom)

/-- The scripts after a base, each with the blanks before its marker. -/
inductive Scripts where
  | none
  | one (gap : Blanks) (kind : ScriptKind) (script : Argument)
  /-- Two scripts, of which the first is the subscript or the superscript. -/
  | both (gap : Blanks) (first : ScriptKind) (script : Argument) (gap' : Blanks)
      (script' : Argument)

/-- A run of items, each an atom with its scripts. -/
inductive Expr where
  | done (gap : Blanks)
  | item (base : Argument) (scripts : Scripts) (rest : Expr)

/-- The cells of a table, of which there is at least one. -/
inductive Cells where
  | last (cell : Expr)
  /-- The next cell stands in the same row. -/
  | column (cell : Expr) (rest : Cells)
  /-- The next cell starts a new row. -/
  | row (cell : Expr) (rest : Cells)

end

/-! ## The text

The text of a construct is put together from those of its parts and from nothing else.  It is a
function of the construct, so the same formula written in another way is another construct. -/

/-- The marker of a kind of script. -/
def marker : ScriptKind → Char
  | .sub => '_'
  | .sup => '^'

/-- The kind that is not this one. -/
def otherKind : ScriptKind → ScriptKind
  | .sub => .sup
  | .sup => .sub

mutual

/-- The text of an atom, which is what a reader gets. -/
def Atom.source : Atom → List Char
  | .numeral n => n.chars
  | .letters l => l.chars
  | .ordinary o => [o.char]
  | .named c => command c.name
  | .group body => '{' :: (body.source ++ ['}'])
  | .fraction style numerator denominator =>
    command (fractionCommand style) ++ (numerator.source ++ denominator.source)
  | .squareRoot body => command "sqrt" ++ body.source
  | .root gap index body =>
    command "sqrt" ++ (gap.chars ++ '[' :: (index.source ++ ']' :: body.source))
  | .modified modifier body => command modifier.name ++ body.source
  | .verbatim kind gap text => command (verbatimCommand kind) ++ (gap.chars ++ text.source)
  | .fenced gap opening body gap' closing =>
    command "left" ++ (gap.chars ++ (opening.source ++ (body.source ++
      (command "right" ++ (gap'.chars ++ closing.source)))))
  | .table gap environment spec cells gap' =>
    command "begin" ++ (gap.chars ++ ((tableName environment).source ++ (spec.source ++
      (cells.source ++ (command "end" ++ (gap'.chars ++ (tableName environment).source))))))
  | .environment gap environment body gap' =>
    command "begin" ++ (gap.chars ++ (environment.name.source ++ (body.source ++
      (command "end" ++ (gap'.chars ++ environment.name.source)))))

/-- The text of an argument, with the blanks before it. -/
def Argument.source : Argument → List Char
  | .mk gap atom => gap.chars ++ atom.source

/-- The text of scripts, with the blanks before each marker. -/
def Scripts.source : Scripts → List Char
  | .none => []
  | .one gap kind script => gap.chars ++ marker kind :: script.source
  | .both gap first script gap' script' =>
    gap.chars ++ marker first :: (script.source ++
      (gap'.chars ++ marker (otherKind first) :: script'.source))

/-- The text of an expression, with the blanks at its end. -/
def Expr.source : Expr → List Char
  | .done gap => gap.chars
  | .item base scripts rest => base.source ++ (scripts.source ++ rest.source)

/-- The text of cells, with what separates them. -/
def Cells.source : Cells → List Char
  | .last cell => cell.source
  | .column cell rest => cell.source ++ '&' :: rest.source
  | .row cell rest => cell.source ++ '\\' :: '\\' :: rest.source

end

/-! ## The tree

The tree is defined with any labels, like the trees themselves: with the names of spaces and no
places it is what is read, and with widths and places it is the layout. -/

/-- Puts cells in front of the first row of a table. -/
def inFront {α : Type} (cells : List α) : List (List α) → List (List α)
  | [] => [cells]
  | row :: rows => (cells ++ row) :: rows

section Tree

variable {W P : Type} (width : SpaceName → W) (place : Bool → P)

/-- A base with a script of a kind, and perhaps one of the other kind. -/
def scripted (base : Node W P) (first : ScriptKind) (script : Node W P)
    (other : Option (Node W P)) : Node W P :=
  match first with
  | .sub => .scripted base (some script) other (place base.isLargeOperator)
  | .sup => .scripted base other (some script) (place base.isLargeOperator)

mutual

/-- The tree of an atom, which is what a reader makes of `Atom.source`. -/
def Atom.tree : Atom → Node W P
  | .numeral n => .number (String.ofList n.chars)
  | .letters l => .identifier (String.ofList l.chars) false
  | .ordinary o => .operator (String.singleton o.char) false
  | .named c => c.node width
  | .group body => .ofItems body.items
  | .fraction style numerator denominator => .fraction numerator.tree denominator.tree style
  | .squareRoot body => .radical body.tree none
  | .root _ index body => .radical body.tree (some (.ofItems index.items))
  | .modified modifier body => modifier.apply body.tree
  | .verbatim kind _ text => .text (String.ofList text.text) kind
  | .fenced _ opening body _ closing => .fenced opening.glyph closing.glyph (.ofItems body.items)
  | .table _ environment _ cells _ => .matrix cells.rows environment.opening environment.closing
  | .environment _ _ body _ => .ofItems body.items

/-- The tree of an argument is that of its atom. -/
def Argument.tree : Argument → Node W P
  | .mk _ atom => atom.tree

/-- A base with its scripts; without any it stands for itself. -/
def Scripts.attach (base : Node W P) : Scripts → Node W P
  | .none => base
  | .one _ kind script => scripted place base kind script.tree none
  | .both _ first script _ script' => scripted place base first script.tree (some script'.tree)

/-- The trees of the items. -/
def Expr.items : Expr → List (Node W P)
  | .done _ => []
  | .item base scripts rest => scripts.attach base.tree :: rest.items

/-- The trees of the cells, row by row. -/
def Cells.rows : Cells → List (List (Node W P))
  | .last cell => [[.ofItems cell.items]]
  | .column cell rest => inFront [.ofItems cell.items] rest.rows
  | .row cell rest => [.ofItems cell.items] :: rest.rows

end

/-- A single item stands for itself, everything else for a row, by `Node.ofItems`. -/
def Expr.tree (e : Expr) : Node W P := .ofItems (e.items width place)

end Tree

/-! ## Unknown names and depth

A formula of the notation is read without a guess but for the names in it that nobody knows, which
are reported in the order of the text.  The depth is the number of levels that reading needs. -/

mutual

/-- What is reported of an atom. -/
def Atom.log : Atom → List Diagnostic
  | .named c => c.log
  | .group body => body.log
  | .fraction _ numerator denominator => numerator.log ++ denominator.log
  | .squareRoot body => body.log
  | .root _ index body => index.log ++ body.log
  | .modified _ body => body.log
  | .fenced _ _ body _ _ => body.log
  | .table _ _ _ cells _ => cells.log
  | .environment _ environment body _ => .unknownEnvironment environment.name.text :: body.log
  | .numeral _ | .letters _ | .ordinary _ | .verbatim _ _ _ => []

/-- What is reported of an argument. -/
def Argument.log : Argument → List Diagnostic
  | .mk _ atom => atom.log

/-- What is reported of scripts, in the order in which they stand. -/
def Scripts.log : Scripts → List Diagnostic
  | .none => []
  | .one _ _ script => script.log
  | .both _ _ script _ script' => script.log ++ script'.log

/-- What is reported of an expression, item by item. -/
def Expr.log : Expr → List Diagnostic
  | .done _ => []
  | .item base scripts rest => base.log ++ (scripts.log ++ rest.log)

/-- What is reported of cells. -/
def Cells.log : Cells → List Diagnostic
  | .last cell => cell.log
  | .column cell rest | .row cell rest => cell.log ++ rest.log

end

mutual

/-- How many atoms are open inside one another, this one included.  It is to be at most
`maxNesting`. -/
def Atom.depth : Atom → Nat
  | .group body => body.depth + 1
  | .fraction _ numerator denominator => max numerator.depth denominator.depth + 1
  | .squareRoot body => body.depth + 1
  | .root _ index body => max index.depth body.depth + 1
  | .modified _ body => body.depth + 1
  | .fenced _ _ body _ _ => body.depth + 1
  | .table _ _ _ cells _ => cells.depth + 1
  | .environment _ _ body _ => body.depth + 1
  | .numeral _ | .letters _ | .ordinary _ | .named _ | .verbatim _ _ _ => 1

/-- How many atoms are open in an argument. -/
def Argument.depth : Argument → Nat
  | .mk _ atom => atom.depth

/-- How many atoms are open in scripts, which are none where there are no scripts. -/
def Scripts.depth : Scripts → Nat
  | .none => 0
  | .one _ _ script => script.depth
  | .both _ _ script _ script' => max script.depth script'.depth

/-- How many atoms are open in an expression. -/
def Expr.depth : Expr → Nat
  | .done _ => 0
  | .item base scripts rest => max base.depth (max scripts.depth rest.depth)

/-- How many atoms are open in cells. -/
def Cells.depth : Cells → Nat
  | .last cell => cell.depth
  | .column cell rest | .row cell rest => max cell.depth rest.depth

end

/-! ## Separation

A token runs together with what follows it if this begins with another letter or digit.  Whether it
does is decided by the `Ending` of the first and the first character of the second, and `separated`
asks so wherever two tokens meet. -/

/-- How a text ends, with a view to what would make its last token longer.  `Ending.allows` tells
what can follow. -/
inductive Ending where
  /-- Nothing would. -/
  | closed
  /-- Another letter would. -/
  | word
  /-- Another digit would, and so would a period. -/
  | digits
  /-- Another digit would. -/
  | decimals
  deriving DecidableEq, Repr

namespace Ending

/-- Whether a character makes the last token longer. -/
def grows : Ending → Char → Bool
  | .closed, _ => false
  | .word, c => c.isAlpha
  | .digits, c => c.isDigit || c == '.'
  | .decimals, c => c.isDigit

/-- Whether a text can follow without making the last token longer. -/
def allows (e : Ending) : List Char → Bool
  | [] => true
  | c :: _ => !e.grows c

/-- A command ends in a word, unless its name is a single character that is no letter. -/
def ofCommand (name : String) : Ending :=
  if isLetterName name then .word else .closed

end Ending

/-- How a fence ends. -/
def Delimiter.ending : Delimiter → Ending
  | .literal _ _ _ => .closed
  | .named name _ _ => .ofCommand name

mutual

/-- How an atom ends: with its last part, if it has one without a mark behind it. -/
def Atom.ending : Atom → Ending
  | .numeral n => if n.decimals.isNone then .digits else .decimals
  | .letters _ => .word
  | .named c => .ofCommand c.name
  | .fraction _ _ denominator => denominator.ending
  | .squareRoot body | .root _ _ body | .modified _ body => body.ending
  | .fenced _ _ _ _ closing => closing.ending
  | .ordinary _ | .group _ | .verbatim _ _ _ | .table _ _ _ _ _ | .environment _ _ _ _ => .closed

/-- How an argument ends. -/
def Argument.ending : Argument → Ending
  | .mk _ atom => atom.ending

end

/-- How a base ends together with its scripts. -/
def Scripts.endingAfter (base : Ending) : Scripts → Ending
  | .none => base
  | .one _ _ script => script.ending
  | .both _ _ _ _ script' => script'.ending

mutual

/-- Whether the tokens of an atom are kept apart. -/
def Atom.separated : Atom → Bool
  | .group body => body.separated
  | .fraction _ numerator denominator =>
    Ending.word.allows numerator.source && numerator.separated
      && numerator.ending.allows denominator.source && denominator.separated
  | .squareRoot body => Ending.word.allows body.source && body.separated
  | .root _ index body => index.separated && body.separated
  | .modified _ body => Ending.word.allows body.source && body.separated
  | .fenced gap opening body gap' closing =>
    Ending.word.allows (gap.chars ++ opening.source) && opening.ending.allows body.source
      && body.separated && Ending.word.allows (gap'.chars ++ closing.source)
  | .table _ _ _ cells _ => cells.separated
  | .environment _ _ body _ => body.separated
  | .numeral _ | .letters _ | .ordinary _ | .named _ | .verbatim _ _ _ => true

/-- Whether the tokens of an argument are kept apart. -/
def Argument.separated : Argument → Bool
  | .mk _ atom => atom.separated

/-- Whether the tokens of scripts are kept apart; a marker keeps them from what stands before. -/
def Scripts.separated : Scripts → Bool
  | .none => true
  | .one _ _ script => script.separated
  | .both _ _ script _ script' => script.separated && script'.separated

/-- Whether the tokens of an expression are kept apart, in each item and between one and the
next. -/
def Expr.separated : Expr → Bool
  | .done _ => true
  | .item base scripts rest =>
    base.separated && scripts.separated && (scripts.endingAfter base.ending).allows rest.source
      && rest.separated

/-- Whether the tokens of cells are kept apart; what separates the cells keeps them from each
other. -/
def Cells.separated : Cells → Bool
  | .last cell => cell.separated
  | .column cell rest | .row cell rest => cell.separated && rest.separated

end

end FormulaMarkup.Notation
