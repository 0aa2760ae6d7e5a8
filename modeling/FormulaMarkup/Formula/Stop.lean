import FormulaMarkup.Source.Scan

/-!
# FormulaMarkup — where an expression ends

An expression inside a construct ends at the token that the construct waits for.  The token itself
is not part of the expression and is left in the input.
-/

namespace FormulaMarkup.Formula

open Source

/-- A token at which an expression ends.  The construct that waits for it consumes it; the
expression leaves it in the input (`readItems`). -/
inductive Stop where
  /-- The brace that closes a group. -/
  | groupEnd
  /-- The bracket that closes the index of a radical. -/
  | bracketEnd
  /-- The ampersand between two cells. -/
  | column
  /-- The double backslash between two rows. -/
  | row
  /-- The command that closes a fence. -/
  | right
  /-- The end of the environment of this name. -/
  | environmentEnd (name : List Char)
  deriving DecidableEq, Repr

namespace Stop

/-- Whether the input continues with the end of the environment `name`.  The name after the
command is read like any group, so that blanks before it do not matter. -/
def atEnvironmentEnd (name s : List Char) : Bool :=
  Source.atCommand "end".toList s && (readGroup (readCommand s).2).1 == name

/-- Whether the input continues with this token.  For the end of an environment its name is looked
at, too. -/
def isAt (s : List Char) : Stop → Bool
  | .groupEnd => s.head? == some '}'
  | .bracketEnd => s.head? == some ']'
  | .column => s.head? == some '&'
  | .row => ['\\', '\\'].isPrefixOf s
  | .right => Source.atCommand "right".toList s
  | .environmentEnd name => atEnvironmentEnd name s

/-- Whether the input continues with one of these tokens. -/
def anyAt (stops : List Stop) (s : List Char) : Bool :=
  stops.any (isAt s)

end Stop

end FormulaMarkup.Formula
