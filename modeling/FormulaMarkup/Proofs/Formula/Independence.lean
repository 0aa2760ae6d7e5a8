import FormulaMarkup.Proofs.Counter.Termination
import FormulaMarkup.Proofs.Markup.Dependence

/-!
# FormulaMarkup — what a configuration can change in a tree

The reader of `Counter` carries a configuration and asks it while it reads.  Two runs on one source
with two configurations nevertheless read the same formula and report the same.  Only the labels of
the tree can differ: the widths of the spaces, and on which side of a large operator its scripts
stand.

* **`Node.erased`** — a tree without these labels.
* **`Node.turned`** — a tree with the scripts of its large operators at their other place.
* **`Formula.parse_configs`** — the two runs.
-/

namespace FormulaMarkup

/-- The other one of the two places that scripts of a large operator can have. -/
def ScriptPlacement.other : ScriptPlacement → ScriptPlacement
  | .beside => .underOver
  | .underOver => .beside

namespace Node

/-- The tree without the widths of its spaces and the places of its scripts: `Node.relabel` with one
label for everything. -/
def erased (layout : Layout) : Node Unit Unit :=
  layout.relabel (fun _ => ()) fun _ _ => ()

/-- The tree with the scripts of every large operator at their `ScriptPlacement.other` place. -/
def turned (layout : Layout) : Layout :=
  layout.relabel id fun largeBase place => if largeBase then place.other else place

end Node

namespace Formula

/-- `layOut` only exchanges labels, so what is left of a layout without them does not depend on the
configuration. -/
theorem erased_layOut (config : Config) (formula : Formula) :
    (layOut config formula).erased = formula.relabel (fun _ => ()) fun _ _ => () :=
  Node.relabel_relabel _ _ _ _ formula

/-- Of two configurations that differ in `useMunderover`, each puts the scripts of a large operator
where the other one does not, and both put all other scripts at the side. -/
theorem scriptPlacement_other {config config' : Config}
    (h : config.useMunderover ≠ config'.useMunderover) (largeBase : Bool) :
    (if largeBase then (scriptPlacement config largeBase).other
      else scriptPlacement config largeBase) = scriptPlacement config' largeBase := by
  cases largeBase with
  | false => rfl
  | true =>
    have hother : config'.useMunderover = !config.useMunderover := Bool.eq_not_of_ne h.symm
    rw [if_pos rfl, scriptPlacement, scriptPlacement, hother]
    cases config.useMunderover <;> rfl

/-- The other rule for the scripts of large operators gives the layout `turned`, and nothing else
changes. -/
theorem layOut_turned {config config' : Config} (hspaces : config.AgreeOn spaceKeys config')
    (hplace : config.useMunderover ≠ config'.useMunderover) (formula : Formula) :
    layOut config' formula = (layOut config formula).turned := by
  show _ = (formula.relabel _ _).relabel _ _
  rw [Node.relabel_relabel, layOut, width_eq_of_agreeOn hspaces]
  congr 1
  funext largeBase _
  exact (scriptPlacement_other hplace largeBase).symm

/-- **A configuration changes widths and places only.** The reader that carries a configuration, run
under two of them, stays in step: every routine, in every state, leaves the same input, the same
counter and the same reports.  On one source both runs come to an end and report the same, and their
trees are equal once the widths of spaces and the places of scripts are `erased`.  The trees are
equal as they are if the configurations agree on the keys of spaces and limits; and if they agree on
spaces but differ on limits, the trees differ in that the scripts of every large operator have
`turned` to their other place. -/
theorem parse_configs (config config' : Config) (source : List Char) :
    (∀ (call : Counter.Call) (st : Counter.State), ∃ st₁ st₂,
      call.run config st = some ((), st₁) ∧ call.run config' st = some ((), st₂) ∧
      st₁.rest = st₂.rest ∧ st₁.depth = st₂.depth ∧ st₁.log = st₂.log) ∧
    ∃ r r', Counter.run config source = some r ∧ Counter.run config' source = some r' ∧
      r.log = r'.log ∧ r.value.erased = r'.value.erased ∧
      (config.AgreeOn layOutKeys config' → r.value = r'.value) ∧
      (config.AgreeOn spaceKeys config' → config.useMunderover ≠ config'.useMunderover →
        r'.value = r.value.turned) := by
  -- the two runs read the same formula, and each lays it out with its own configuration
  refine ⟨Counter.Call.lockstep config config', parse config source, parse config' source,
    Counter.run_eq_parse config source, Counter.run_eq_parse config' source, rfl, ?_, ?_, ?_⟩
  · show (layOut config (read source).value).erased = (layOut config' (read source).value).erased
    rw [erased_layOut, erased_layOut]
  · intro hkeys
    exact layOut_eq_of_agreeOn hkeys (read source).value
  · intro hspaces hplace
    exact layOut_turned hspaces hplace (read source).value

/-- A sum with its bounds, a letter with a script, and a space. -/
def boundedSum : List Char := "\\sum_a^b\\,x^2".toList

/-- The standard configuration with padding of another size. -/
def padded : Config := Config.standard.overlay (Overrides.empty.set .fencePadding (1.0 : Float))

/-- The standard configuration with limits at the side of large operators. -/
def sided : Config := Config.standard.overlay (Overrides.empty.set .useMunderover false)

/-- Padding has nothing to do with reading, so `padded` has the tree of the standard configuration;
`sided` has the tree in which the bounds of the sum have turned. -/
theorem parse_configs_boundedSum :
    (Config.standard.AgreeOn layOutKeys padded ∧
      ∃ r r', Counter.run .standard boundedSum = some r ∧ Counter.run padded boundedSum = some r' ∧
        r.value = r'.value) ∧
    (Config.standard.AgreeOn spaceKeys sided ∧
      Config.standard.useMunderover ≠ sided.useMunderover ∧
      ∃ r r', Counter.run .standard boundedSum = some r ∧ Counter.run sided boundedSum = some r' ∧
        r'.value = r.value.turned) := by
  have hkeys : Config.standard.AgreeOn layOutKeys padded :=
    Config.agreeOn_overlay_set _ (by decide) _
  have hspaces : Config.standard.AgreeOn spaceKeys sided :=
    Config.agreeOn_overlay_set _ (by decide) _
  have hplace : Config.standard.useMunderover ≠ sided.useMunderover := by decide
  obtain ⟨r, r', hrun, hrun', _, _, hequal, _⟩ := (parse_configs .standard padded boundedSum).2
  obtain ⟨q, q', hside, hside', _, _, _, hturned⟩ := (parse_configs .standard sided boundedSum).2
  exact ⟨⟨hkeys, r, r', hrun, hrun', hequal hkeys⟩, hspaces, hplace, q, q', hside, hside',
    hturned hspaces hplace⟩

end Formula

end FormulaMarkup
