/-!
# FormulaMarkup — the rendering parameters

A parameter is known by its **`Key`**.  The **`Kind`** of a key fixes which values it can have and
how they are read and written, so that everything that is said about one parameter of a kind is
said about all of them.
-/

namespace FormulaMarkup

/-- Where the numerator or the denominator of a fraction stands. -/
inductive Alignment where
  | left | center | right
  deriving DecidableEq, Repr

namespace Alignment

/-- All alignments, in the order in which messages list them. -/
def all : List Alignment := [.left, .center, .right]

/-- The keyword of an alignment. -/
def name : Alignment → String
  | .left => "left"
  | .center => "center"
  | .right => "right"

/-- The alignment with this keyword. -/
def ofName? (keyword : String) : Option Alignment :=
  all.find? (·.name = keyword)

theorem ofName?_name (a : Alignment) : ofName? a.name = some a := by
  cases a <;> decide

end Alignment

/-- When line breaks and indentation are added to the output. -/
inductive PrettyPrint where
  | never | always
  /-- For formulas in a block of their own only. -/
  | auto
  deriving DecidableEq, Repr

namespace PrettyPrint

/-- All settings, in the order in which messages list them. -/
def all : List PrettyPrint := [.never, .always, .auto]

/-- The keyword of a way of printing. -/
def name : PrettyPrint → String
  | .never => "never"
  | .always => "always"
  | .auto => "auto"

/-- The way of printing with this keyword. -/
def ofName? (keyword : String) : Option PrettyPrint :=
  all.find? (·.name = keyword)

theorem ofName?_name (p : PrettyPrint) : ofName? p.name = some p := by
  cases p <;> decide

end PrettyPrint

/-- The message about a text that is none of the keywords. -/
def unknownKeyword : String := "Matching variant not found"

/-- What kind of value a parameter has. -/
inductive Kind where
  | number | text | flag | alignment | prettyPrint
  deriving DecidableEq, Repr

/-- The values of a kind.  An alignment may also be left out altogether. -/
@[reducible] def Kind.Value : Kind → Type
  | .number => Float
  | .text => String
  | .flag => Bool
  | .alignment => Option Alignment
  | .prettyPrint => PrettyPrint

/-- The parameters. -/
inductive Key where
  | baseFontSize | mathFontFamily | uiFontFamily
  | scriptScale | scriptMinSize
  | fracLineThickness | fracNumAlign | fracDenomAlign
  | matrixRowGap | matrixColGap
  | fencePadding
  | operatorSpacing | useOperatorSpacing
  | useMunderover
  | thinSpace | mediumSpace | thickSpace | quad | qquad
  | displayMode | prettyPrint | annotate
  deriving DecidableEq, Repr

namespace Key

/-- All keys, in the order in which they are checked and listed. -/
def all : List Key :=
  [.baseFontSize, .mathFontFamily, .uiFontFamily, .scriptScale, .scriptMinSize,
   .fracLineThickness, .fracNumAlign, .fracDenomAlign, .matrixRowGap, .matrixColGap,
   .fencePadding, .operatorSpacing, .useOperatorSpacing, .useMunderover, .thinSpace,
   .mediumSpace, .thickSpace, .quad, .qquad, .displayMode, .prettyPrint, .annotate]

/-- No parameter is missing among `all`. -/
theorem mem_all (k : Key) : k ∈ all := by
  cases k <;> decide

/-- The kind of value that a parameter has. -/
@[reducible] def kind : Key → Kind
  | .mathFontFamily | .uiFontFamily => .text
  | .fracNumAlign | .fracDenomAlign => .alignment
  | .useOperatorSpacing | .useMunderover | .displayMode | .annotate => .flag
  | .prettyPrint => .prettyPrint
  | _ => .number

/-- The type of the values of a parameter. -/
abbrev Value (k : Key) : Type := k.kind.Value

/-- The name of a parameter in a configuration file: words in lower case with hyphens. -/
def name : Key → String
  | .baseFontSize => "base-font-size"
  | .mathFontFamily => "math-font-family"
  | .uiFontFamily => "ui-font-family"
  | .scriptScale => "script-scale"
  | .scriptMinSize => "script-min-size"
  | .fracLineThickness => "frac-line-thickness"
  | .fracNumAlign => "frac-num-align"
  | .fracDenomAlign => "frac-denom-align"
  | .matrixRowGap => "matrix-row-gap"
  | .matrixColGap => "matrix-col-gap"
  | .fencePadding => "fence-padding"
  | .operatorSpacing => "operator-spacing"
  | .useOperatorSpacing => "use-operator-spacing"
  | .useMunderover => "use-munderover"
  | .thinSpace => "thin-space"
  | .mediumSpace => "medium-space"
  | .thickSpace => "thick-space"
  | .quad => "quad"
  | .qquad => "qquad"
  | .displayMode => "display-mode"
  | .prettyPrint => "pretty-print"
  | .annotate => "annotation"

/-- The name of a parameter as a property of an options object: words joined by capitals. -/
def propertyName : Key → String
  | .baseFontSize => "baseFontSize"
  | .mathFontFamily => "mathFontFamily"
  | .uiFontFamily => "uiFontFamily"
  | .scriptScale => "scriptScale"
  | .scriptMinSize => "scriptMinSize"
  | .fracLineThickness => "fracLineThickness"
  | .fracNumAlign => "fracNumAlign"
  | .fracDenomAlign => "fracDenomAlign"
  | .matrixRowGap => "matrixRowGap"
  | .matrixColGap => "matrixColGap"
  | .fencePadding => "fencePadding"
  | .operatorSpacing => "operatorSpacing"
  | .useOperatorSpacing => "useOperatorSpacing"
  | .useMunderover => "useMunderover"
  | .thinSpace => "thinSpace"
  | .mediumSpace => "mediumSpace"
  | .thickSpace => "thickSpace"
  | .quad => "quad"
  | .qquad => "qquad"
  | .displayMode => "displayMode"
  | .prettyPrint => "prettyPrint"
  | .annotate => "annotation"

/-- The parameter with this name. -/
def ofName? (name : String) : Option Key :=
  all.find? (·.name = name)

theorem ofName?_name (k : Key) : ofName? k.name = some k := by
  cases k <;> decide

end Key

end FormulaMarkup
