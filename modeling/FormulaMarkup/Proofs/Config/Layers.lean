import FormulaMarkup.Convert

/-!
# FormulaMarkup — layers of a configuration

Layers are laid over a configuration one after the other, and each key goes its own way: it has the
value that the last layer to set it gives it.  So it does not matter whether the layers are laid
over a configuration, over a converter, or over one another first.

Everything is said of one key at a time.  A layer that sets the key decides about it, and a layer
that does not leaves it alone; the induction on the layers starts from either of these.

* **`LastSets`** — the last of some layers to set a key sets it to a value.
* **`Config.get_foldl_overlay`**, **`Config.get_foldl_overlay_of_unset`** — the value of a key under
  layers.
* **`Converter.foldl_withOverrides`**, **`Config.overlay_foldl_merge`** — the other two ways to
  apply layers.
-/

namespace FormulaMarkup

/-- The last of the layers to set a key sets it to this value.  A value that stands for "none" is a
value like any other. -/
def LastSets (layers : List Overrides) (k : Key) (value : k.Value) : Prop :=
  ∃ before layer after, layers = before ++ layer :: after ∧ layer.get k = some value ∧
    ∀ later ∈ after, later.get k = none

namespace Config

theorem get_overlay_of_set (c : Config) {o : Overrides} {k : Key} {value : k.Value}
    (h : o.get k = some value) : (c.overlay o).get k = value := by
  show (o.get k).getD (c.get k) = value
  rw [h, Option.getD_some]

theorem get_overlay_of_unset (c : Config) {o : Overrides} {k : Key} (h : o.get k = none) :
    (c.overlay o).get k = c.get k := by
  show (o.get k).getD (c.get k) = c.get k
  rw [h, Option.getD_none]

/-- A key that no layer sets keeps its value.  Induction on the layers, `get_overlay_of_unset` being
the step. -/
theorem get_foldl_overlay_of_unset (c : Config) {layers : List Overrides} {k : Key}
    (h : ∀ layer ∈ layers, layer.get k = none) : (layers.foldl overlay c).get k = c.get k := by
  induction layers generalizing c with
  | nil => rfl
  | cons layer layers ih =>
    have hlater := fun later hlater => h later (List.mem_cons_of_mem layer hlater)
    rw [List.foldl_cons, ih (c.overlay layer) hlater,
      c.get_overlay_of_unset (h layer List.mem_cons_self)]

/-- **The last writer wins**, whatever the configuration and the layers before it say.  The layers
in front of the last one that sets the key make up the configuration that it is laid over, and those
behind it do not set the key. -/
theorem get_foldl_overlay (c : Config) {layers : List Overrides} {k : Key} {value : k.Value}
    (h : LastSets layers k value) : (layers.foldl overlay c).get k = value := by
  obtain ⟨before, layer, after, rfl, hlayer, hafter⟩ := h
  rw [List.foldl_append, List.foldl_cons, get_foldl_overlay_of_unset _ hafter,
    get_overlay_of_set _ hlayer]

/-- **Layers can be merged first.**  What is merged on the way is a layer like any other. -/
theorem overlay_foldl_merge (c : Config) (first : Overrides) (layers : List Overrides) :
    c.overlay (layers.foldl Overrides.merge first) = layers.foldl overlay (c.overlay first) := by
  induction layers generalizing first with
  | nil => rfl
  | cons layer layers ih => rw [List.foldl_cons, List.foldl_cons, ih, overlay_merge]

end Config

namespace Converter

/-- **Converters derived one after the other** have the configuration under all the layers. -/
theorem foldl_withOverrides (c : Converter) (layers : List Overrides) :
    layers.foldl withOverrides c = ⟨layers.foldl Config.overlay c.config⟩ := by
  induction layers generalizing c with
  | nil => rfl
  | cons layer layers ih => rw [List.foldl_cons, List.foldl_cons, ih, withOverrides]

/-- Each converter of a chain has the configuration under the layers up to it, and keeps it while
the chain goes on.  The list of all converters of a chain is the `List.scanl` of which the last one
is the fold. -/
theorem getElem?_scanl_withOverrides (c : Converter) (layers : List Overrides) {n : Nat}
    (hn : n ≤ layers.length) :
    (layers.scanl withOverrides c)[n]? = some ⟨(layers.take n).foldl Config.overlay c.config⟩ := by
  induction layers generalizing c n with
  | nil =>
    obtain rfl := Nat.le_zero.mp hn
    rfl
  | cons layer layers ih =>
    cases n with
    | zero => rw [List.scanl_cons]; rfl
    | succ n =>
      rw [List.scanl_cons, List.getElem?_cons_succ, ih _ (Nat.le_of_succ_le_succ hn)]
      rfl

end Converter

end FormulaMarkup
