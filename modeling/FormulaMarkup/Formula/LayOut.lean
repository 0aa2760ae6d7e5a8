import FormulaMarkup.Config.Basic
import FormulaMarkup.Node

/-!
# FormulaMarkup — laying out a formula

A configuration turns a formula into a layout: every named space gets its width, and the scripts of
every base get their place.  It has no other influence on the tree.
-/

namespace FormulaMarkup

/-- The width of a named space in `em`. -/
def SpaceName.width (config : Config) : SpaceName → Float
  | .thin => config.thinSpace
  | .medium => config.mediumSpace
  | .thick => config.thickSpace
  | .negativeThin => -config.thinSpace
  | .quad => config.quad
  | .qquad => config.qquad

/-- The place of scripts: under and over the large operators if the configuration says so, and at
the side of everything else. -/
def scriptPlacement (config : Config) (largeBase : Bool) : ScriptPlacement :=
  if largeBase && config.useMunderover then .underOver else .beside

namespace Formula

/-- The formula with the widths and places of a configuration.  Nothing else of a `Config` has a
part in a tree. -/
def layOut (config : Config) (formula : Formula) : Layout :=
  formula.relabel (SpaceName.width config) fun largeBase _ => scriptPlacement config largeBase

end Formula

end FormulaMarkup
