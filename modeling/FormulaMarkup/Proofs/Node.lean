import FormulaMarkup.Node

/-!
# FormulaMarkup — the parts of a node

What is true of every node is proved by going from its parts to the node.  With **`Node.parts`**
this is one step instead of one for each way in which nodes can hold nodes.

* **`Node.parts`** — the nodes that stand directly in a node, in document order.
* **`Node.parts_induction`** — a property that passes from the parts of a node to the node holds of
  every node.
* **`Node.parts_relabel`**, **`Node.relabel_relabel`** — labels do not change which parts a node
  has, and can be exchanged one after another.
* **`Node.height`** — how many nodes stand inside one another.
* **`Node.Everywhere`** — that something holds of a node and of whatever stands in it.
-/

namespace FormulaMarkup.Node

variable {W P : Type}

/-- The nodes that stand directly in a node, in document order. -/
def parts : Node W P → List (Node W P)
  | .row children => children
  | .fraction numerator denominator _ => [numerator, denominator]
  | .radical body index => body :: index.toList
  | .scripted base sub sup _ => base :: sub.toList ++ sup.toList
  | .accent body _ _ => [body]
  | .fenced _ _ body => [body]
  | .matrix rows _ _ => rows.flatten
  | .styled _ body => [body]
  | .phantom body => [body]
  | .identifier _ _ | .number _ | .operator _ _ | .text _ _ | .space _ | .lineBreak => []

/-- A part is smaller than the node in which it stands.  This is what the induction over the parts
rests on, and the only place where it matters how a node holds its parts. -/
theorem sizeOf_lt_of_mem_parts {node part : Node W P} (h : part ∈ node.parts) :
    sizeOf part < sizeOf node := by
  -- one case for each way in which nodes hold nodes; the others have no parts
  cases node with
  | row children =>
    have hlt : sizeOf part < sizeOf children := List.sizeOf_lt_of_mem h
    simp only [Node.row.sizeOf_spec]
    omega
  | fraction numerator denominator style =>
    simp only [parts, List.mem_cons, List.not_mem_nil, or_false] at h
    rcases h with rfl | rfl <;> simp only [Node.fraction.sizeOf_spec] <;> omega
  | radical body index =>
    simp only [parts, List.mem_cons, Option.mem_toList] at h
    rcases h with rfl | rfl <;> simp only [Node.radical.sizeOf_spec, Option.some.sizeOf_spec] <;>
      omega
  | scripted base sub sup placement =>
    simp only [parts, List.cons_append, List.mem_cons, List.mem_append, Option.mem_toList] at h
    rcases h with rfl | rfl | rfl <;>
      simp only [Node.scripted.sizeOf_spec, Option.some.sizeOf_spec] <;> omega
  | accent body glyph position =>
    rw [List.mem_singleton.mp h]
    simp only [Node.accent.sizeOf_spec]
    omega
  | fenced opening closing body =>
    rw [List.mem_singleton.mp h]
    simp only [Node.fenced.sizeOf_spec]
    omega
  | matrix rows opening closing =>
    obtain ⟨cells, hcells, hpart⟩ := List.mem_flatten.mp h
    have hc := List.sizeOf_lt_of_mem hcells
    have hp := List.sizeOf_lt_of_mem hpart
    simp only [Node.matrix.sizeOf_spec]
    omega
  | styled variant body =>
    rw [List.mem_singleton.mp h]
    simp only [Node.styled.sizeOf_spec]
    omega
  | phantom body =>
    rw [List.mem_singleton.mp h]
    simp only [Node.phantom.sizeOf_spec]
    omega
  | _ => simp [parts] at h

/-- **Induction over the parts.** What passes from the parts of a node to the node holds of every
node.  With it a property of trees takes one step, instead of a mutual induction over nodes, lists
of nodes, rows and nodes that may be missing. -/
@[elab_as_elim]
theorem parts_induction {motive : Node W P → Prop}
    (step : ∀ node, (∀ part ∈ node.parts, motive part) → motive node) (node : Node W P) :
    motive node :=
  step node fun part _ => parts_induction step part
termination_by sizeOf node
decreasing_by exact sizeOf_lt_of_mem_parts ‹_›

/-! ## Labels

A tree has labels at its spaces and its scripts, which are names as it is read and widths or
placements once it is laid out.  `relabel` exchanges them, and the lemmas say that nothing else of
the tree depends on them. -/

section Relabel

variable {W' P' : Type} (width : W → W') (placement : Bool → P → P')

/-- `relabelAll` relabels several nodes one by one. -/
theorem relabelAll_eq_map (nodes : List (Node W P)) :
    relabelAll width placement nodes = nodes.map (relabel width placement) := by
  induction nodes with
  | nil => rfl
  | cons node nodes ih => rw [relabelAll, ih, List.map_cons]

/-- `relabelRows` relabels the cells of rows one by one. -/
theorem relabelRows_eq_map (rows : List (List (Node W P))) :
    relabelRows width placement rows = rows.map (List.map (relabel width placement)) := by
  induction rows with
  | nil => rfl
  | cons cells rows ih => rw [relabelRows, ih, relabelAll_eq_map, List.map_cons]

theorem relabelOption_eq_map (node? : Option (Node W P)) :
    relabelOption width placement node? = node?.map (relabel width placement) := by
  cases node? <;> rfl

/-- Whether one item stands for itself in `ofItems` does not depend on labels. -/
theorem relabel_ofItems (items : List (Node W P)) :
    (ofItems items).relabel width placement = .ofItems (relabelAll width placement items) := by
  match items with
  | [] => rfl
  | [item] => rfl
  | item :: item' :: items => rfl

/-- **The parts of a relabelled node are the relabelled parts.** No label decides how many there
are. -/
theorem parts_relabel (node : Node W P) :
    (node.relabel width placement).parts = node.parts.map (relabel width placement) := by
  cases node with
  | row children => exact relabelAll_eq_map width placement children
  | radical body index => cases index <;> rfl
  | scripted base sub sup place => cases sub <;> cases sup <;> rfl
  | matrix rows opening closing =>
    show (relabelRows width placement rows).flatten = _
    rw [relabelRows_eq_map, ← List.map_flatten]
    rfl
  | _ => rfl

/-- Whether a node is a large operator does not depend on labels, so scripts above and below can be
decided on either side of an exchange. -/
theorem isLargeOperator_relabel (node : Node W P) :
    (node.relabel width placement).isLargeOperator = node.isLargeOperator := by
  cases node <;> rfl

/-- **One exchange of labels after another is one exchange.** By `parts_induction`, with the lists
of parts and the parts that may be missing as maps of `relabel`. -/
theorem relabel_relabel {W'' P'' : Type} (width' : W' → W'') (placement' : Bool → P' → P'')
    (node : Node W P) :
    (node.relabel width placement).relabel width' placement'
      = node.relabel (fun w => width' (width w))
          fun large place => placement' large (placement large place) := by
  induction node using parts_induction with
  | step node ih =>
    cases node with
    | row children =>
      simp only [relabel, relabelAll_eq_map, List.map_map, Node.row.injEq]
      exact List.map_congr_left ih
    | fraction numerator denominator style =>
      simp only [relabel, ih numerator (by simp [parts]), ih denominator (by simp [parts])]
    | radical body index =>
      have hbody := ih body (by simp [parts])
      cases index with
      | none => simp only [relabel, relabelOption, hbody]
      | some index => simp only [relabel, relabelOption, hbody, ih index (by simp [parts])]
    | scripted base sub sup place =>
      have hbase := ih base (by simp [parts])
      -- both scripts of a base are treated alike, if they are there
      have hscript : ∀ script? : Option (Node W P), (∀ script ∈ script?, script ∈
          (Node.scripted base sub sup place).parts) →
          relabelOption width' placement' (relabelOption width placement script?)
            = relabelOption (fun w => width' (width w))
                (fun large place => placement' large (placement large place)) script? := by
        intro script? hparts
        cases script? with
        | none => rfl
        | some script => simp only [relabelOption, ih script (hparts script rfl)]
      -- the placement looks at the base, whose kind does not depend on labels
      simp only [relabel, hbase, isLargeOperator_relabel,
        hscript sub fun script hsub => by simp [parts, Option.mem_def.mp hsub],
        hscript sup fun script hsup => by simp [parts, Option.mem_def.mp hsup]]
    | matrix rows opening closing =>
      simp only [relabel, relabelRows_eq_map, List.map_map, Node.matrix.injEq, and_true]
      refine List.map_congr_left fun cells hcells => ?_
      show (cells.map _).map _ = cells.map _
      rw [List.map_map]
      exact List.map_congr_left fun cell hcell => ih cell (List.mem_flatten_of_mem hcells hcell)
    | accent body glyph position => simp only [relabel, ih body (by simp [parts])]
    | fenced opening closing body => simp only [relabel, ih body (by simp [parts])]
    | styled variant body => simp only [relabel, ih body (by simp [parts])]
    | phantom body => simp only [relabel, ih body (by simp [parts])]
    | _ => rfl

end Relabel

/-! ## Height

Height counts how many nodes stand inside one another, and so how deep a recursion over the tree
goes.  As for other functions on trees, there is one equation for it in terms of the parts. -/

mutual

/-- How many nodes stand inside one another.  A node without parts has the height 1. -/
def height : Node W P → Nat
  | .row children => heightAll children + 1
  | .fraction numerator denominator _ => max (height numerator) (height denominator) + 1
  | .radical body index => max (height body) (heightOption index) + 1
  | .scripted base sub sup _ =>
    max (height base) (max (heightOption sub) (heightOption sup)) + 1
  | .accent body _ _ | .fenced _ _ body | .styled _ body | .phantom body => height body + 1
  | .matrix rows _ _ => heightRows rows + 1
  | .identifier _ _ | .number _ | .operator _ _ | .text _ _ | .space _ | .lineBreak => 1

/-- The greatest height of several nodes; there is none where there is no node. -/
def heightAll : List (Node W P) → Nat
  | [] => 0
  | node :: nodes => max (height node) (heightAll nodes)

/-- The greatest height of the cells of a table. -/
def heightRows : List (List (Node W P)) → Nat
  | [] => 0
  | cells :: rows => max (heightAll cells) (heightRows rows)

/-- The height of a node that may be missing. -/
def heightOption : Option (Node W P) → Nat
  | none => 0
  | some node => height node

end

/-- The `heightAll` of some nodes is the greatest of their heights. -/
theorem heightAll_eq (nodes : List (Node W P)) :
    heightAll nodes = (nodes.map height).foldr max 0 := by
  induction nodes with
  | nil => rfl
  | cons node nodes ih => rw [heightAll, ih]; rfl

/-- The greatest height of two lists of nodes is the greater one of both. -/
theorem heightAll_append (nodes nodes' : List (Node W P)) :
    heightAll (nodes ++ nodes') = max (heightAll nodes) (heightAll nodes') := by
  induction nodes with
  | nil => simp [heightAll]
  | cons node nodes ih => simp only [List.cons_append, heightAll, ih, Nat.max_assoc]

/-- Rows are as high as all their cells together, so `heightRows` needs no lemmas of its own. -/
theorem heightRows_eq (rows : List (List (Node W P))) :
    heightRows rows = heightAll rows.flatten := by
  induction rows with
  | nil => rfl
  | cons cells rows ih => rw [heightRows, ih, List.flatten_cons, heightAll_append]

/-- **A node is one higher than the highest of its parts.** -/
theorem height_eq (node : Node W P) : node.height = heightAll node.parts + 1 := by
  cases node with
  | matrix rows opening closing => rw [height, heightRows_eq, parts]
  | radical body index => cases index <;> simp [height, heightAll, heightOption, parts]
  | scripted base sub sup place =>
    cases sub <;> cases sup <;> simp [height, heightAll, heightOption, parts]
  | _ => simp [height, heightAll, parts]

/-- A bound on each of several nodes is a bound on all of them. -/
theorem heightAll_le {nodes : List (Node W P)} {n : Nat} (h : ∀ node ∈ nodes, node.height ≤ n) :
    heightAll nodes ≤ n := by
  induction nodes with
  | nil => exact Nat.zero_le n
  | cons node nodes ih =>
    rw [heightAll]
    have hnode := h node List.mem_cons_self
    have hnodes := ih fun other hother => h other (List.mem_cons_of_mem _ hother)
    omega

/-- A bound on the parts of a node is, with one more, a bound on the node. -/
theorem height_le_succ {node : Node W P} {n : Nat} (h : ∀ part ∈ node.parts, part.height ≤ n) :
    node.height ≤ n + 1 := by
  rw [height_eq]
  exact Nat.succ_le_succ (heightAll_le h)

/-- Labels have no part in the height of a tree.  Induction over the parts, with `parts_relabel`. -/
theorem height_relabel {W' P' : Type} (width : W → W') (placement : Bool → P → P')
    (node : Node W P) : (node.relabel width placement).height = node.height := by
  induction node using parts_induction with
  | step node ih =>
    rw [height_eq, height_eq node, parts_relabel, heightAll_eq, heightAll_eq, List.map_map]
    congr 2
    exact List.map_congr_left ih

/-! ## What holds everywhere in a tree

An invariant of parsed trees is a property of each node, and `Everywhere` says that it holds at the
root and in whatever stands below it. -/

/-- Something holds of a node and of whatever stands in it. -/
inductive Everywhere (p : Node W P → Prop) : Node W P → Prop where
  | intro (node : Node W P) (here : p node) (below : ∀ part ∈ node.parts, Everywhere p part) :
      Everywhere p node

theorem Everywhere.at_root {p : Node W P → Prop} {node : Node W P} (h : Everywhere p node) :
    p node := by
  cases h with
  | intro _ here _ => exact here

theorem everywhere_of_forall {p : Node W P → Prop} (h : ∀ node, p node) (node : Node W P) :
    node.Everywhere p := by
  induction node using parts_induction with
  | step node ih => exact .intro node (h node) ih

/-- What `relabel` makes true of each node is true everywhere in the relabelled tree. -/
theorem everywhere_relabel {W' P' : Type} {width : W → W'} {placement : Bool → P → P'}
    {p : Node W' P' → Prop} (h : ∀ node : Node W P, p (node.relabel width placement))
    (node : Node W P) : (node.relabel width placement).Everywhere p := by
  induction node using parts_induction with
  | step node ih =>
    refine .intro _ (h node) fun part hpart => ?_
    rw [parts_relabel] at hpart
    obtain ⟨original, horiginal, rfl⟩ := List.mem_map.mp hpart
    exact ih original horiginal

end FormulaMarkup.Node
