import FormulaMarkup.Proofs.Counter.Termination
import FormulaMarkup.Proofs.Formula.Trees
import FormulaMarkup.Proofs.Node

/-!
# FormulaMarkup — what the limit on nesting bounds

Only atoms are counted, but between an atom and the atoms in it there are at most two more nodes:
the row of an expression and the base with its scripts.  So the limit bounds the height of every
tree, however deep the constructs of its source are nested.

* **`height_le_of_isBody`** — an atom is at most three nodes higher than those in it.
* **`height_parse_le`** — the height of the tree of a source.
* **`nesting_bounded`** — the counter and the height together.
-/

namespace FormulaMarkup.Formula

open Source

/-! ## Heights

The nodes between an atom and the atoms in it are those that the grammar of `Trees` puts there.
Each of its layers has one lemma, which says by how many nodes it can be higher. -/

section Grammar

variable {atom : Formula → Prop} {n : Nat} (hpos : 1 ≤ n)
  (hatom : ∀ f : Formula, atom f → f.height ≤ n)
include hpos hatom

/-- An argument (`IsArgument`) is as high as an atom; an empty row has the height 1. -/
theorem height_le_of_isArgument {f : Formula} (h : IsArgument atom f) : f.height ≤ n := by
  rcases h with h | rfl
  · exact hatom f h
  · exact hpos

/-- An item (`IsItem`) adds a node for the base with its scripts, if there are any, and no other. -/
theorem height_le_of_isItem {f : Formula} (h : IsItem atom f) : f.height ≤ n + 1 := by
  have harg : ∀ {f : Formula}, IsArgument atom f → f.height ≤ n :=
    height_le_of_isArgument hpos hatom
  cases h with
  | base h => exact Nat.le_succ_of_le (harg h)
  | scripted hbase hsub hsup _ =>
    exact Node.height_le_succ fun part hpart =>
      harg (isArgument_of_mem_parts hbase hsub hsup hpart)
  | column => exact Nat.succ_le_succ (Nat.zero_le n)
  | lineBreak => exact Nat.succ_le_succ (Nat.zero_le n)

/-- An expression adds a row over its items, unless there is only one of them (`ofItems`). -/
theorem height_le_of_isExpression {f : Formula} (h : IsExpression atom f) : f.height ≤ n + 2 := by
  obtain ⟨items, hitems, rfl⟩ := h
  have hitem : ∀ item ∈ items, item.height ≤ n + 1 :=
    fun item hitem => height_le_of_isItem hpos hatom (hitems item hitem)
  match items with
  | [item] => exact Nat.le_succ_of_le (hitem item List.mem_cons_self)
  | [] => exact Node.height_le_succ hitem
  | _ :: _ :: _ => exact Node.height_le_succ hitem

/-- **An atom is at most three nodes higher than those in it**: its own node over the row of an
expression over the base with its scripts. -/
theorem height_le_of_isBody {f : Formula} (h : IsBody atom f) : f.height ≤ n + 3 := by
  have hexpr : ∀ {f : Formula}, IsExpression atom f → f.height ≤ n + 2 :=
    height_le_of_isExpression hpos hatom
  rcases h.parts with hf | hparts
  · exact Nat.le_succ_of_le (hexpr hf)
  · exact Node.height_le_succ fun part hpart => hexpr (hparts part hpart)

end Grammar

/-- Each level adds three nodes to what `IsAtom` allows.  Induction on the levels, the text of a
verbatim rest being the lowest. -/
theorem height_le_of_isAtom {levels : Nat} {f : Formula} (h : IsAtom levels f) :
    f.height ≤ 3 * levels + 1 := by
  induction levels generalizing f with
  | zero =>
    obtain ⟨text, rfl⟩ := h
    exact Nat.le_refl 1
  | succ levels ih => exact height_le_of_isBody (by omega) (fun f hf => ih hf) h

/-- The tree of a source is an expression of atoms with all levels, and laying out leaves its height
(`height_relabel`). -/
theorem height_parse_le (config : Config) (source : List Char) :
    (parse config source).value.height ≤ 3 * maxNesting + 3 := by
  show (layOut config (read source).value).height ≤ _
  rw [layOut, Node.height_relabel]
  exact height_le_of_isExpression (by omega) (fun f hf => height_le_of_isAtom hf)
    (isExpression_read source)

end FormulaMarkup.Formula

namespace FormulaMarkup.Counter

open Formula

/-- **The limit on nesting bounds every tree.**  Every routine leaves the counter as it was when it
was called and takes it no further than to the limit.  So while a source is read the counter stays
within the limit, and it is back at zero in the end.  The tree of the source is at most three nodes
higher than three times the limit. -/
theorem nesting_bounded (config : Config) (source : List Char) :
    (∀ (call : Call) (st : State), ∃ st', call.run config st = some ((), st') ∧
      st'.depth = st.depth ∧ st'.deepest ≤ max st.deepest maxNesting) ∧
    (∃ layout st', expression config (inside config) [] (.start source) = some (layout, st') ∧
      st'.depth = 0 ∧ st'.deepest ≤ maxNesting ∧ (parse config source).value = layout) ∧
    (parse config source).value.height ≤ 3 * maxNesting + 3 := by
  refine ⟨fun call st => ?_, ?_, height_parse_le config source⟩
  · obtain ⟨st', hrun, _, hdepth, hdeepest⟩ := call.ends config st
    exact ⟨st', hrun, hdepth, hdeepest⟩
  · obtain ⟨deepest, hle, hrun⟩ := expression_runs config [] (.start source)
    have hle' : deepest ≤ max 0 maxNesting := hle
    exact ⟨_, _, hrun, rfl, by show deepest ≤ maxNesting; omega, rfl⟩

end FormulaMarkup.Counter
