import FormulaMarkup.Config.Key

/-!
# FormulaMarkup — configurations

A **`Config`** gives every parameter a value.  An **`Overrides`** gives some of them a value and is
laid over a configuration; the parameters it does not set keep what they had.  A key with a value
that means "none", such as an alignment that is left out, is set all the same.

* **`Config.overlay`** — the configuration with overrides laid over it.
* **`Overrides.merge`** — two layers in one, the upper one first.
* **`Config.overlay_merge`** — merging two layers first makes no difference.
-/

namespace FormulaMarkup

/-- A value for every `Key`. -/
@[ext] structure Config where
  get : (k : Key) → k.Value

/-- A value for some of the parameters.  A layer that has none for a key leaves it as it is. -/
@[ext] structure Overrides where
  get : (k : Key) → Option k.Value

namespace Overrides

/-- The layer that sets nothing. -/
def empty : Overrides := ⟨fun _ => none⟩

/-- Sets one key and leaves the others as they are. -/
def set (o : Overrides) (k : Key) (value : k.Value) : Overrides :=
  ⟨fun k' => if h : k = k' then some (h ▸ value) else o.get k'⟩

@[simp] theorem get_set_self (o : Overrides) (k : Key) (value : k.Value) :
    (o.set k value).get k = some value := by
  simp [set]

theorem get_set_of_ne (o : Overrides) {k k' : Key} (h : k ≠ k') (value : k.Value) :
    (o.set k value).get k' = o.get k' := by
  simp [set, h]

/-- The overrides that set what either layer sets; the upper one wins. -/
def merge (lower upper : Overrides) : Overrides :=
  ⟨fun k => (upper.get k).or (lower.get k)⟩

end Overrides

namespace Config

/-- The values that parameters have when nobody sets them. -/
def standard : Config where
  get
    | .baseFontSize => (22.0 : Float)
    | .mathFontFamily => "STIX Two Math, Cambria Math, Times New Roman, serif"
    | .uiFontFamily => "Avenir Next, Gill Sans, Trebuchet MS, sans-serif"
    | .scriptScale => (0.7 : Float)
    | .scriptMinSize => (8.0 : Float)
    | .fracLineThickness => (0.06 : Float)
    | .fracNumAlign => some Alignment.center
    | .fracDenomAlign => some Alignment.center
    | .matrixRowGap => (0.3 : Float)
    | .matrixColGap => (0.4 : Float)
    | .fencePadding => (0.1 : Float)
    | .operatorSpacing => (0.16 : Float)
    | .useOperatorSpacing => false
    | .useMunderover => true
    | .thinSpace => (0.1667 : Float)
    | .mediumSpace => (0.2222 : Float)
    | .thickSpace => (0.2778 : Float)
    | .quad => (1.0 : Float)
    | .qquad => (2.0 : Float)
    | .displayMode => true
    | .prettyPrint => PrettyPrint.never
    | .annotate => false

instance : Inhabited Config := ⟨standard⟩

/-- The configuration with `o` laid over it. -/
def overlay (c : Config) (o : Overrides) : Config :=
  ⟨fun k => (o.get k).getD (c.get k)⟩

/-- The standard configuration under a layer. -/
def ofOverrides (o : Overrides) : Config :=
  standard.overlay o

/-- Layers can be merged before they are laid over a configuration, so that a chain of layers is one
layer (`Overrides.merge`). -/
theorem overlay_merge (c : Config) (lower upper : Overrides) :
    c.overlay (lower.merge upper) = (c.overlay lower).overlay upper := by
  ext k
  simp only [overlay, Overrides.merge]
  cases upper.get k <;> simp

/-! ## The parameters that rendering and reading look at

Each parameter by its name, with the type of its value.  Nothing outside this module has to know of
keys unless it is about all of them. -/

/-- The factor by which scripts are smaller than their base. -/
def scriptScale (c : Config) : Float := c.get .scriptScale

/-- The size below which scripts do not shrink, in pixels. -/
def scriptMinSize (c : Config) : Float := c.get .scriptMinSize

/-- The thickness of a fraction bar in `em`. -/
def fracLineThickness (c : Config) : Float := c.get .fracLineThickness

/-- The alignment of numerators, if they have one. -/
def fracNumAlign (c : Config) : Option Alignment := c.get .fracNumAlign

/-- The alignment of denominators, if they have one. -/
def fracDenomAlign (c : Config) : Option Alignment := c.get .fracDenomAlign

/-- The distance of the rows of a table in `em`. -/
def matrixRowGap (c : Config) : Float := c.get .matrixRowGap

/-- The distance of the columns of a table in `em`. -/
def matrixColGap (c : Config) : Float := c.get .matrixColGap

/-- The space between a fence and its body in `em`. -/
def fencePadding (c : Config) : Float := c.get .fencePadding

/-- Whether padding is written at all: zero of either sign and `NaN` are no padding. -/
def hasFencePadding (c : Config) : Bool :=
  !(c.fencePadding == 0.0) && !c.fencePadding.isNaN

/-- The space around an operator in `em`. -/
def operatorSpacing (c : Config) : Float := c.get .operatorSpacing

/-- Whether the space around operators is written. -/
def useOperatorSpacing (c : Config) : Bool := c.get .useOperatorSpacing

/-- Whether large operators take their scripts under and over them. -/
def useMunderover (c : Config) : Bool := c.get .useMunderover

/-- The width of a thin space. -/
def thinSpace (c : Config) : Float := c.get .thinSpace

/-- The width of a medium space. -/
def mediumSpace (c : Config) : Float := c.get .mediumSpace

/-- The width of a thick space. -/
def thickSpace (c : Config) : Float := c.get .thickSpace

/-- The width of a quad. -/
def quad (c : Config) : Float := c.get .quad

/-- The width of a double quad. -/
def qquad (c : Config) : Float := c.get .qquad

/-- Whether the formula stands in a block of its own. -/
def displayMode (c : Config) : Bool := c.get .displayMode

/-- When output is indented. -/
def prettyPrint (c : Config) : PrettyPrint := c.get .prettyPrint

/-- Whether the source goes with the formula. -/
def annotates (c : Config) : Bool := c.get .annotate

/-- Whether line breaks and indentation are added: as `prettyPrint` says, which may leave it to
`displayMode`. -/
def isPretty (c : Config) : Bool :=
  match c.prettyPrint with
  | .never => false
  | .always => true
  | .auto => c.displayMode

end Config

end FormulaMarkup
