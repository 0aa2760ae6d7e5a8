import FormulaMarkup.Source.Symbol

/-!
# FormulaMarkup — the meaning of a command name

Every name has a meaning: a construct that takes arguments, a space, a change of form, a symbol, or
else an identifier that nobody knows.  **`Command.ofName`** finds it.
-/

namespace FormulaMarkup.Formula

open Source

/-- What a command does.  Commands that share a routine share a constructor, and differ in its
arguments. -/
inductive Command where
  | nothing
  /-- Takes a numerator and a denominator. -/
  | fraction (style : FractionStyle)
  /-- Takes an index in brackets, which may be left out, and a body. -/
  | radical
  /-- Opens a body between two fences. -/
  | fence
  | environment
  /-- Takes a text as it is. -/
  | verbatim (kind : TextKind)
  | phantom
  | space (name : SpaceName)
  | styled (variant : MathVariant)
  | accent (glyph : String) (position : AccentPosition)
  /-- Stands for a node that takes nothing. -/
  | leaf (node : Formula)
  /-- Is not known and stands for its own name. -/
  | unknown (name : String)

namespace Command

/-- The names that are words of the language.  The empty name is that of a backslash at the end of
the input. -/
def words : List (String × Command) :=
  [("", .nothing),
   ("frac", .fraction .inherit), ("dfrac", .fraction .display), ("tfrac", .fraction .text),
   ("sqrt", .radical), ("left", .fence), ("begin", .environment),
   ("text", .verbatim .words), ("operatorname", .verbatim .operatorName),
   ("phantom", .phantom),
   (",", .space .thin), (":", .space .medium), (";", .space .thick),
   ("!", .space .negativeThin), ("quad", .space .quad), ("qquad", .space .qquad)]

/-- The node of a `Symbol`.  A function is shown upright under its own name. -/
def symbolNode (name : String) : Symbol → Formula
  | .letter glyph => .identifier glyph false
  | .operator glyph => .operator glyph false
  | .largeOperator glyph => .operator glyph true
  | .function => .identifier name true

/-- The meaning of a name that is not among the `words`. -/
def ofTables (name : String) : Command :=
  match variant? name with
  | some variant => .styled variant
  | none =>
    match accent? name with
    | some (glyph, position) => .accent glyph position
    | none =>
      match Symbol.ofName? name with
      | some symbol => .leaf (symbolNode name symbol)
      | none => if isEscapedLiteral name then .leaf (.operator name false) else .unknown name

/-- What a command stands for.  The `words` of the notation come first, and then the tables of
symbols. -/
def ofName (name : String) : Command :=
  match words.lookup name with
  | some command => command
  | none => ofTables name

end Command

end FormulaMarkup.Formula
