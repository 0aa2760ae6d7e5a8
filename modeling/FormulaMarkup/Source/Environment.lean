/-!
# FormulaMarkup — tabular environments

A tabular environment is laid out as a table between two glyphs, each of which may be absent.  Its
name is needed twice: to find the environment and to find its end.
-/

namespace FormulaMarkup.Source

/-- The tabular environments. -/
inductive Environment where
  | matrix | parenMatrix | bracketMatrix | braceMatrix | barMatrix | doubleBarMatrix
  | cases | aligned | array | align | alignStarred | gathered
  deriving DecidableEq, Repr

namespace Environment

/-- All environments with a layout of their own. -/
def all : List Environment :=
  [.matrix, .parenMatrix, .bracketMatrix, .braceMatrix, .barMatrix, .doubleBarMatrix,
   .cases, .aligned, .array, .align, .alignStarred, .gathered]

/-- The name of an environment in a source. -/
def name : Environment → String
  | .matrix => "matrix"
  | .parenMatrix => "pmatrix"
  | .bracketMatrix => "bmatrix"
  | .braceMatrix => "Bmatrix"
  | .barMatrix => "vmatrix"
  | .doubleBarMatrix => "Vmatrix"
  | .cases => "cases"
  | .aligned => "aligned"
  | .array => "array"
  | .align => "align"
  | .alignStarred => "align*"
  | .gathered => "gathered"

/-- The environment of this name. -/
def ofName? (name : String) : Option Environment :=
  all.find? (·.name = name)

theorem ofName?_name (e : Environment) : ofName? e.name = some e := by
  cases e <;> decide

/-- Whether a group with a column specification follows the name.  It is read and dropped. -/
def hasColumnSpec : Environment → Bool
  | .array => true
  | _ => false

/-- The glyph before the table; empty if there is none. -/
def opening : Environment → String
  | .parenMatrix => "("
  | .bracketMatrix => "["
  | .braceMatrix | .cases => "\x7b"
  | .barMatrix => "|"
  | .doubleBarMatrix => "‖"
  | _ => ""

/-- The glyph after the table; empty if there is none. -/
def closing : Environment → String
  | .parenMatrix => ")"
  | .bracketMatrix => "]"
  | .braceMatrix => "\x7d"
  | .barMatrix => "|"
  | .doubleBarMatrix => "‖"
  | _ => ""

end Environment

end FormulaMarkup.Source
