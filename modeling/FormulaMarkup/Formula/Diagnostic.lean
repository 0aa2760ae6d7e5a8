import FormulaMarkup.Text.Quoted

/-!
# FormulaMarkup — diagnostics of reading

Reading a source never fails, but it may have to guess.  Every guess is recorded as a
**`Diagnostic`**, in the order of the places where it is made.
-/

namespace FormulaMarkup.Formula

/-- How many atoms may be open inside one another. -/
def maxNesting : Nat := 128

/-- How much a diagnostic matters. -/
inductive Severity where
  | debug | warning
  deriving DecidableEq, Repr

/-- What was guessed, with the name or the size that the message tells. -/
inductive Diagnostic where
  /-- A command that is in no table is taken for an identifier. -/
  | unknownCommand (name : List Char)
  /-- The body of an environment that is not tabular is taken for an ordinary expression. -/
  | unknownEnvironment (name : List Char)
  /-- The end of an environment that is not open is dropped together with its name. -/
  | strayEnd (name : List Char)
  /-- The rest of the input, of this many bytes, lies too deep to be read. -/
  | tooDeep (bytes : Nat)
  deriving DecidableEq, Repr

namespace Diagnostic

/-- Only what is not read at all (`tooDeep`) deserves a warning. -/
def severity : Diagnostic → Severity
  | .tooDeep _ => .warning
  | _ => .debug

/-- The text of a diagnostic. -/
def message : Diagnostic → List Char
  | .unknownCommand name => "unknown command \\".toList ++ name
  | .unknownEnvironment name =>
    "unknown environment ".toList ++ Text.quoted name
      ++ "; parsing its body as an expression".toList
  | .strayEnd name => "ignoring \\end\x7b".toList ++ name ++ "\x7d without \\begin".toList
  | .tooDeep bytes =>
    "nesting deeper than ".toList ++ Nat.toDigits 10 maxNesting
      ++ " levels; taking ".toList ++ Nat.toDigits 10 bytes ++ " bytes verbatim".toList

end Diagnostic

end FormulaMarkup.Formula
