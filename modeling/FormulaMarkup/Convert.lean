import FormulaMarkup.Formula.LayOut
import FormulaMarkup.Formula.Reader
import FormulaMarkup.Markup.Presentation

/-!
# FormulaMarkup — conversion

From a source to markup: the source is read, the formula is laid out, and the layout is printed.
None of the three can fail.

* **`parse`** — the layout of a source and the diagnostics of reading it.
* **`convert`** — the markup of a source.
* **`Converter`** — a configuration to convert with, from which others can be derived.
-/

namespace FormulaMarkup

/-- The layout of a source (`layOut`), with the diagnostics of reading it. -/
def parse (config : Config) (source : List Char) : Formula.Reading Layout :=
  (Formula.read source).map (Formula.layOut config)

/-- The markup of a source under a configuration: `parse`, and then `renderWithSource`. -/
def convert (config : Config) (source : List Char) : List Char :=
  Markup.renderWithSource config (parse config source).value source

/-- Converts sources under one configuration, which never changes. -/
structure Converter where
  config : Config

namespace Converter

/-- The converter with the standard configuration. -/
def standard : Converter := ⟨.standard⟩

/-- A converter whose configuration is this one's with `o` laid over it. -/
def withOverrides (c : Converter) (o : Overrides) : Converter := ⟨c.config.overlay o⟩

/-- The markup of a source. -/
def convert (c : Converter) (source : List Char) : List Char :=
  FormulaMarkup.convert c.config source

end Converter

end FormulaMarkup
